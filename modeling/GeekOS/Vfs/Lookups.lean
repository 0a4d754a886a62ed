import GeekOS.Vfs.Files
import GeekOS.Vfs.Mutex

/-!
# What lookups return

`vfs_lookup_child` looks for the name among the children that are in memory before it asks the
driver. The search compares the name with the name of the directory, not with that of the child: it
takes the first child when the name is the directory's own, and finds no child otherwise.

* `DriverAnswers`: the driver's `lookup` is a function of the file and the name;
* `FindsByName`: a search takes a child of the name, and misses only names that no child has;
* `LookupsRight`: what the lookups have returned is what the paths mean, and a directory has no two
  children of one name;
* `lookupsRight_of_findsByName`: in every run whose searches find by name all lookups are right.
-/

namespace GeekOS.Vfs

open Result TransitionSystem LinkedList

/-- The limits of a path and of its components. -/
def WithinLimits (path : Str) : Prop :=
  path.length ≤ vfsPathlenMax ∧ ∀ name ∈ components path, name.length ≤ vfsNamelenMax

section Points

variable {F : Type*} (files : Files F) (file : InodeId → F) (name : InodeId → Option Str)
  (children : InodeId → List InodeId)

/-- What a lookup comes to: the inode at the end of the path, or an error where the path has no
meaning. -/
def Returns (startDir : InodeId) (path : Str) (inode : Except ℤ InodeId) : Prop :=
  WithinLimits path →
    match inode with
    | .ok i => Walk name children startDir (components path) i
    | .error _ => ∃ rc, files.resolve (file startDir) (components path) = .error rc

/-- The lookup has come to `i`, and `path` remains. -/
def Lookup.At (l : Lookup) (i : InodeId) (path : Str) : Prop :=
  path.head? ≠ some slash ∧ ∃ names, components l.path = names ++ components path ∧
    Walk name children l.startDir names i

/-- The lookup has come to a directory and goes on with a name. -/
def Search.At (type : InodeId → InodeType) (x : Search) : Prop :=
  type x.dir = .dir ∧ x.path.head? ≠ some slash ∧ x.name.length ≤ vfsNamelenMax ∧
    ∃ names, components x.lookup.path = names ++ x.name :: components x.path ∧
      Walk name children x.lookup.startDir names x.dir

/-- What the search for the name has come to. -/
def Search.Finds (x : Search) : Except ℤ InodeId → Prop
  | .ok c => c ∈ children x.dir ∧ name c = some x.name
  | .error _ => ∃ rc, files.lookup (file x.dir) x.name = .error rc

/-- The thread is on its way through the tree. -/
def Pc.OnTheWay (type : InodeId → InodeType) : Pc → Prop
  | lookupLock l | adjustRefcounts (.lookupStart l) _ _ => l.path.head? ≠ some slash
  | lookupLoop l i path => l.At name children i path
  | lockDir x | condWait x => x.At name children type
  | search x child => x.At name children type ∧ ∀ c ∈ child, c ∈ children x.dir
  | driverLookup x => x.At name children type ∧ ∀ c ∈ children x.dir, name c ≠ some x.name
  | lookupRelock x child | unlockDir x child =>
      x.At name children type ∧ x.Finds files file name children child
  | lookupUnlock l inode => Returns files file name children l.startDir l.path inode
  | adjustRefcounts (.lookupFailed l rc) _ _ =>
      Returns files file name children l.startDir l.path (.error rc)
  | mountStore .. => False
  | _ => True

variable {files file name children} {children' : InodeId → List InodeId}
  {type : InodeId → InodeType}

theorem Returns.mono {startDir : InodeId} {path : Str} {inode : Except ℤ InodeId}
    (h : Returns files file name children startDir path inode)
    (hsub : ∀ d, ∀ c ∈ children d, c ∈ children' d) :
    Returns files file name children' startDir path inode := by
  intro hlimits
  have hr := h hlimits
  cases inode with
  | ok i => exact Walk.mono hr hsub
  | error rc => exact hr

theorem Search.At.mono {x : Search} (h : x.At name children type)
    (hsub : ∀ d, ∀ c ∈ children d, c ∈ children' d) : x.At name children' type := by
  obtain ⟨htype, hpath, hlen, names, hnames, hw⟩ := h
  exact ⟨htype, hpath, hlen, names, hnames, hw.mono hsub⟩

/-- A child list that grows leaves a thread on its way, but for one whose driver is looking for a
new name in the directory. -/
theorem Pc.OnTheWay.mono {p : Pc} (h : p.OnTheWay files file name children type)
    (hsub : ∀ d, ∀ c ∈ children d, c ∈ children' d)
    (hsame : ∀ x, p = .driverLookup x → children' x.dir = children x.dir) :
    p.OnTheWay files file name children' type := by
  cases p with
  | lookupLoop l i path =>
    obtain ⟨hpath, names, hnames, hw⟩ := h
    exact ⟨hpath, names, hnames, hw.mono hsub⟩
  | lockDir x | condWait x => exact Search.At.mono h hsub
  | search x child => exact ⟨h.1.mono hsub, fun c hc => hsub _ _ (h.2 c hc)⟩
  | driverLookup x =>
    refine ⟨h.1.mono hsub, fun c hc => h.2 c ?_⟩
    rwa [hsame x rfl] at hc
  | lookupRelock x child | unlockDir x child =>
    refine ⟨h.1.mono hsub, ?_⟩
    cases child with
    | ok c => exact ⟨hsub _ _ h.2.1, h.2.2⟩
    | error rc => exact h.2
  | lookupUnlock l inode => exact Returns.mono h hsub
  | adjustRefcounts c i delta =>
    cases c with
    | lookupFailed l rc =>
      have hr : Returns files file name children l.startDir l.path (.error rc) := h
      exact hr.mono hsub
    | _ => exact h
  | _ => exact h

/-! ## What the tree says about them -/

variable {parent : InodeId → Option InodeId}

/-- What remains of the path means what the path means. -/
theorem Lookup.At.resolve_eq (ht : Tree files file name parent children) {l : Lookup} {i : InodeId}
    {path : Str} (h : l.At name children i path) :
    files.resolve (file l.startDir) (components l.path) =
      files.resolve (file i) (components path) := by
  obtain ⟨-, names, hnames, hw⟩ := h
  rw [hnames, ht.resolve_of_walk hw]

theorem Search.At.resolve_eq (ht : Tree files file name parent children) {x : Search}
    (h : x.At name children type) :
    files.resolve (file x.lookup.startDir) (components x.lookup.path) =
      files.resolve (file x.dir) (x.name :: components x.path) := by
  obtain ⟨-, -, -, names, hnames, hw⟩ := h
  rw [hnames, ht.resolve_of_walk hw]

/-- The end of the path. -/
theorem Lookup.At.returns {l : Lookup} {i : InodeId} (h : l.At name children i []) :
    Returns files file name children l.startDir l.path (.ok i) := by
  intro _
  obtain ⟨-, names, hnames, hw⟩ := h
  rw [components_nil, List.append_nil] at hnames
  rwa [← hnames] at hw

/-- A component that is too long. -/
theorem Lookup.At.returns_of_badName {l : Lookup} {i : InodeId} {path : Str} {rc : ℤ}
    (h : l.At name children i path) (hpath : path ≠ [])
    (hname : vfsGetNextPathElement path = .ok (.error rc)) {rc' : ℤ} :
    Returns files file name children l.startDir l.path (.error rc') := by
  intro hlimits
  obtain ⟨hhead, names, hnames, -⟩ := h
  rcases vfsGetNextPathElement_ok hpath hhead with ⟨n, hn, hlen, -⟩ | ⟨n, rest, hok, -⟩
  · -- the component is one of the path, whose components are short enough
    have hmem : n ∈ components l.path := by
      rw [hnames]
      exact List.mem_append_right _ hn
    exact absurd (hlimits.2 n hmem) (Nat.not_le.mpr hlen)
  · rw [hname] at hok
    cases hok

/-- The next component. -/
theorem Lookup.At.next {l : Lookup} {i : InodeId} {path n rest : Str} (h : l.At name children i path)
    (hpath : path ≠ []) (hname : vfsGetNextPathElement path = .ok (.ok (n, rest))) :
    components path = n :: components rest ∧ n.length ≤ vfsNamelenMax ∧ rest.head? ≠ some slash := by
  obtain ⟨hhead, -⟩ := h
  rcases vfsGetNextPathElement_ok hpath hhead with ⟨n', -, -, herr⟩ | ⟨n', rest', hok, hrest⟩
  · rw [hname] at herr
    cases herr
  · rw [hname] at hok
    obtain ⟨rfl, rfl⟩ : n = n' ∧ rest = rest' := by simpa using hok
    exact hrest

/-- A component of something that is not a directory. -/
theorem Lookup.At.returns_of_notDir (ht : Tree files file name parent children)
    (htype : ∀ i, type i = files.type (file i)) {l : Lookup} {i : InodeId} {path n rest : Str}
    (h : l.At name children i path) (hpath : path ≠ [])
    (hname : vfsGetNextPathElement path = .ok (.ok (n, rest))) (hdir : type i ≠ .dir) {rc : ℤ} :
    Returns files file name children l.startDir l.path (.error rc) := by
  intro _
  refine ⟨enotdir, ?_⟩
  rw [htype] at hdir
  rw [h.resolve_eq ht, (h.next hpath hname).1, Files.resolve, if_neg hdir]

/-- A component of a directory. -/
theorem Lookup.At.search {l : Lookup} {i : InodeId} {path n rest : Str}
    (h : l.At name children i path) (hpath : path ≠ [])
    (hname : vfsGetNextPathElement path = .ok (.ok (n, rest))) (hdir : type i = .dir) :
    Search.At name children type { lookup := l, dir := i, name := n, path := rest } := by
  obtain ⟨hcomp, hlen, hhead⟩ := h.next hpath hname
  obtain ⟨-, names, hnames, hw⟩ := h
  exact ⟨hdir, hhead, hlen, names, hnames.trans (by rw [hcomp]), hw⟩

/-- A name that the driver does not know. -/
theorem Search.At.returns (ht : Tree files file name parent children)
    (htype : ∀ i, type i = files.type (file i)) {x : Search} (h : x.At name children type)
    {rc rc' : ℤ} (hx : x.Finds files file name children (.error rc)) :
    Returns files file name children x.lookup.startDir x.lookup.path (.error rc') := by
  intro _
  obtain ⟨e, he⟩ := hx
  have hdir : files.type (file x.dir) = .dir := (htype x.dir).symm.trans h.1
  exact ⟨e, by rw [h.resolve_eq ht, Files.resolve, if_pos hdir, he]⟩

/-- A name that has been found. -/
theorem Search.At.next {x : Search} (h : x.At name children type) {c : InodeId}
    (hx : x.Finds files file name children (.ok c)) : x.lookup.At name children c x.path := by
  obtain ⟨-, hhead, -, names, hnames, hw⟩ := h
  refine ⟨hhead, names ++ [x.name], by rw [hnames]; simp, hw.append ⟨c, hx.1, hx.2, rfl⟩⟩

end Points

/-! ## Runs -/

namespace State

variable {T : Type} [DecidableEq T] {F : Type*} (files : Files F) (file : InodeId → F)

/-- The driver's `lookup` returns an inode of the name for the file that the name stands for, with
the directory as its parent, or else an error. -/
def AnswersSearch (s : State T) (x : Search) (rc : ℤ) (inode : Option InodeId) : Prop :=
  match files.lookup (file x.dir) x.name with
  | .ok f => rc = 0 ∧ ∃ i ∈ inode, file i = f ∧ s.name i = some x.name ∧ s.parent i = some x.dir
  | .error _ => rc ≠ 0

/-- The driver answers so, and nothing is mounted. -/
def DriverAnswers (s : State T) : Event T → Prop
  | .driverLookup t rc inode =>
      match s.pc t with
      | .driverLookup x => s.AnswersSearch files file x rc inode
      | _ => True
  | .doMount .. => False
  | _ => True

/-- The search of a name takes a child that has the name, and it comes to the end of the child list
only when no child has it. -/
def FindsByName (s : State T) : Event T → Prop
  | .resume t =>
      match s.pc t with
      | .search x none => ∀ children, IsList (s.childList x.dir) s.link children →
          ∀ c ∈ children, s.name c ≠ some x.name
      | .search x (some c) => (∃ dirName ∈ s.name x.dir, strncmp x.name dirName vfsNamelenMax = 0) →
          s.name c = some x.name
      | _ => True
  | _ => True

/-- What the lookups have returned is what the paths mean: a success where the path has a meaning,
with an inode for the file that it means. Lookups of one path, and lookups of one name in one
directory, return one inode, and no directory has two children of one name. -/
structure LookupsRight (s : State T) : Prop where
  success : ∀ t d path i, .lookupInode t d path (.ok i) ∈ s.returned → WithinLimits path →
    files.resolve (file d) (components path) = .ok (file i)
  failure : ∀ t d path rc, .lookupInode t d path (.error rc) ∈ s.returned → WithinLimits path →
    ∃ rc', files.resolve (file d) (components path) = .error rc'
  samePath : ∀ t u d path path' i j, .lookupInode t d path (.ok i) ∈ s.returned →
    .lookupInode u d path' (.ok j) ∈ s.returned → WithinLimits path → WithinLimits path' →
    components path = components path' → i = j
  sameName : ∀ t u d d' path path' i j, .lookupInode t d path (.ok i) ∈ s.returned →
    .lookupInode u d' path' (.ok j) ∈ s.returned → WithinLimits path → WithinLimits path' →
    components path ≠ [] → components path' ≠ [] → s.parent i = s.parent j → s.name i = s.name j →
    i = j
  names : ∀ d, ∃ children, IsList (s.childList d) s.link children ∧ (children.map s.name).Nodup

/-- The invariant: the child lists stand for a part of the file system, and each thread is on its
way through them. -/
structure OnTheWay (s : State T) (children : InodeId → List InodeId) : Prop where
  locked : s.Locked
  tree : Tree files file s.name s.parent children
  lists : ∀ d, IsList (s.childList d) s.link (children d)
  types : ∀ i, s.type i = files.type (file i)
  pc : ∀ t, (s.pc t).OnTheWay files file s.name children s.type
  returned : ∀ t d path inode, .lookupInode t d path inode ∈ s.returned →
    Returns files file s.name children d path inode

variable {files file} {children : InodeId → List InodeId} {s s' : State T} {e : Event T} {t : T}
  {p q : Pc}

/-- One thread has moved, and the tree is what it was. -/
theorem OnTheWay.of_move (h : s.OnTheWay files file children) (ht : s.Transition e s')
    (hpc' : s'.pc = Function.update s.pc t q) (hq : q.OnTheWay files file s.name children s.type)
    (hframe : s'.name = s.name ∧ s'.type = s.type ∧ s'.parent = s.parent ∧
      s'.childList = s.childList ∧ s'.link = s.link)
    (hret : ∀ u d path inode, .lookupInode u d path inode ∈ s'.returned →
      .lookupInode u d path inode ∈ s.returned ∨ Returns files file s.name children d path inode) :
    s'.OnTheWay files file children := by
  obtain ⟨hname, htype, hparent, hlists, hlink⟩ := hframe
  refine ⟨h.locked.transition ht, ?_, fun d => ?_, fun i => ?_, fun u => ?_, fun u d path inode hr => ?_⟩
  · rw [hname, hparent]
    exact h.tree
  · rw [hlists, hlink]
    exact h.lists d
  · rw [htype]
    exact h.types i
  · rw [hpc', hname, htype]
    rcases eq_or_ne u t with rfl | hne
    · simpa using hq
    · simpa [hne] using h.pc u
  · rw [hname]
    rcases hret u d path inode hr with hold | hnew
    · exact h.returned u d path inode hold
    · exact hnew

/-- The same where nothing is returned. -/
theorem OnTheWay.of_goto (h : s.OnTheWay files file children) (ht : s.Transition e s')
    (hpc' : s'.pc = Function.update s.pc t q) (hq : q.OnTheWay files file s.name children s.type)
    (hframe : s'.name = s.name ∧ s'.type = s.type ∧ s'.parent = s.parent ∧
      s'.childList = s.childList ∧ s'.link = s.link) (hret : s'.returned = s.returned) :
    s'.OnTheWay files file children :=
  h.of_move ht hpc' hq hframe fun _ _ _ _ hr => .inl (hret ▸ hr)

/-- A lookup returns. -/
theorem OnTheWay.returnLookup {s₁ : State T} (h : s.OnTheWay files file children) {l : Lookup}
    {inode : Except ℤ InodeId} (ht : s.Transition e (s₁.returnLookup t l inode))
    (hpc : s₁.pc = s.pc) (hframe : s₁.name = s.name ∧ s₁.type = s.type ∧ s₁.parent = s.parent ∧
      s₁.childList = s.childList ∧ s₁.link = s.link) (hret : s₁.returned = s.returned)
    (hinode : Returns files file s.name children l.startDir l.path inode) :
    (s₁.returnLookup t l inode).OnTheWay files file children := by
  -- what is recorded is what the files have at the end of the path
  have hrecord : ∀ u d path inode', Return.lookupInode u d path inode' ∈
      Return.lookupInode t l.startDir l.path inode :: s₁.returned →
      .lookupInode u d path inode' ∈ s.returned ∨
        Returns files file s.name children d path inode' := by
    intro u d path inode' hr
    rcases List.mem_cons.mp hr with heq | hr
    · obtain ⟨-, rfl, rfl, rfl⟩ := Return.lookupInode.inj heq
      exact .inr hinode
    · exact .inl (hret ▸ hr)
  unfold State.returnLookup at ht ⊢
  cases hc : l.caller with
  | direct =>
    cases inode with
    | ok i =>
      simp only [hc] at ht ⊢
      exact h.of_move (q := .idle) ht (by rw [← hpc]; rfl) trivial hframe hrecord
    | error rc =>
      simp only [hc] at ht ⊢
      exact h.of_move (q := .idle) ht (by rw [← hpc]; rfl) trivial hframe hrecord
  | mount rootDir name =>
    cases inode with
    | ok i =>
      simp only [hc] at ht ⊢
      exact h.of_goto (q := .mountCheck _) ht (by rw [← hpc]; rfl) trivial hframe hret
    | error rc =>
      simp only [hc] at ht ⊢
      exact h.of_goto (q := .releaseRef _ none) ht (by rw [← hpc]; rfl) trivial hframe hret

/-- `vfs_release_ref` returns. -/
theorem OnTheWay.returnRelease {s₁ : State T} (h : s.OnTheWay files file children)
    {c : ReleaseCaller} {inode : Option InodeId} (ht : s.Transition e (s₁.returnRelease t c inode))
    (hpc : s₁.pc = s.pc) (hframe : s₁.name = s.name ∧ s₁.type = s.type ∧ s₁.parent = s.parent ∧
      s₁.childList = s.childList ∧ s₁.link = s.link) (hret : s₁.returned = s.returned) :
    (s₁.returnRelease t c inode).OnTheWay files file children := by
  cases c with
  | direct | mountpoint root rc | rootDir mountpoint rc =>
    refine h.of_move ht (congrArg (Function.update · t _) hpc) trivial hframe
      fun u d path inode' hr => .inl ?_
    rw [← hret]
    simpa [State.returnRelease, record, State.goto] using hr

/-- The driver has found a child: the child list of the directory grows by it. -/
theorem OnTheWay.driverFound (h : s.OnTheWay files file children) {x : Search} {i : InodeId}
    (hpc : s.pc t = .driverLookup x) (hanswer : s.AnswersSearch files file x 0 (some i))
    (ht : s.Transition e s')
    (hpc' : s'.pc = Function.update s.pc t (.lookupRelock x (.ok i)))
    (hframe : s'.name = s.name ∧ s'.type = s.type ∧ s'.parent = s.parent)
    (hlists : s'.childList = Function.update s.childList x.dir
      (LinkedList.append (s.childList x.dir) s.link i).1)
    (hlink : s'.link = (LinkedList.append (s.childList x.dir) s.link i).2)
    (hret : s'.returned = s.returned) : ∃ children', s'.OnTheWay files file children' := by
  obtain ⟨hname, htype, hparent⟩ := hframe
  have hway := h.pc t
  rw [hpc] at hway
  obtain ⟨hat, hfresh⟩ := hway
  -- the driver's answer is an inode of the name, which no child has
  obtain ⟨hi, hin, hip⟩ : files.lookup (file x.dir) x.name = .ok (file i) ∧
      s.name i = some x.name ∧ s.parent i = some x.dir := by
    unfold AnswersSearch at hanswer
    split at hanswer
    next f hf =>
      obtain ⟨-, j, hj, hfile, hnj, hpj⟩ := hanswer
      obtain rfl : i = j := Option.some.inj hj
      exact ⟨by rw [hf, hfile], hnj, hpj⟩
    · exact absurd rfl hanswer
  have hnew : ∀ d, i ∉ children d := by
    intro d hd
    have hpd := (h.tree.child d i hd).1
    rw [hip] at hpd
    obtain rfl := Option.some.inj hpd
    exact hfresh i hd hin
  have hsub : ∀ d, ∀ c ∈ children d,
      c ∈ Function.update children x.dir (children x.dir ++ [i]) d := by
    intro d c hc
    rcases eq_or_ne d x.dir with rfl | hne
    · rw [Function.update_self]
      exact List.mem_append_left _ hc
    · rwa [Function.update_of_ne hne]
  refine ⟨Function.update children x.dir (children x.dir ++ [i]), h.locked.transition ht, ?_,
    fun d => ?_, fun j => ?_, fun u => ?_, fun u d path inode hr => ?_⟩
  · rw [hname, hparent]
    exact h.tree.append ((h.types x.dir).symm.trans hat.1) hip hin hi hfresh
  · rw [hlists, hlink]
    rcases eq_or_ne d x.dir with rfl | hne
    · rw [Function.update_self, Function.update_self]
      exact append_isList (h.lists x.dir) (hnew x.dir)
    · rw [Function.update_of_ne hne, Function.update_of_ne hne]
      refine append_isList_of_disjoint (h.lists x.dir) (h.lists d) (fun c hc hc' => ?_)
        (hnew x.dir) (hnew d)
      have hpd := (h.tree.child d c hc).1
      rw [(h.tree.child x.dir c hc').1] at hpd
      exact hne (Option.some.inj hpd).symm
  · rw [htype]
    exact h.types j
  · rw [hpc', hname, htype]
    rcases eq_or_ne u t with rfl | hne
    · rw [Function.update_self]
      refine ⟨hat.mono hsub, ?_, hin⟩
      rw [Function.update_self]
      exact List.mem_append_right _ (List.mem_singleton_self i)
    · rw [Function.update_of_ne hne]
      refine (h.pc u).mono hsub fun y hy => ?_
      -- the other thread's driver is looking in another directory
      have hdir : y.dir ≠ x.dir := by
        intro heq
        refine hne (h.locked.unique u t x.dir ?_ ?_)
        · rw [hy, ← heq]
          rfl
        · rw [hpc]
          rfl
      rw [Function.update_of_ne hdir]
  · rw [hret] at hr
    rw [hname]
    exact (h.returned u d path inode hr).mono hsub

/-- Every step keeps the invariant, if the driver answers as a function and the search finds by
name. -/
theorem OnTheWay.transition (h : s.OnTheWay files file children)
    (hD : s.DriverAnswers files file e) (hC : s.FindsByName e) (ht : s.Transition e s') :
    ∃ children', s'.OnTheWay files file children' := by
  have hway : ∀ {u : T} {p : Pc}, s.pc u = p → p.OnTheWay files file s.name children s.type := by
    intro u p hpc
    rw [← hpc]
    exact h.pc u
  have hframe : s.name = s.name ∧ s.type = s.type ∧ s.parent = s.parent ∧
      s.childList = s.childList ∧ s.link = s.link := ⟨rfl, rfl, rfl, rfl, rfl⟩
  have ht' := ht
  cases ht with
  | register hpc =>
    exact ⟨children, h.locked.transition ht', h.tree, h.lists, h.types, h.pc, h.returned⟩
  | @call e t p hpc hentry =>
    refine ⟨children, h.of_goto ht' rfl ?_ hframe rfl⟩
    cases hentry <;> trivial
  | releaseCall hpc => exact ⟨children, h.of_goto (q := .releaseRef _ _) ht' rfl trivial hframe rfl⟩
  | lock hpc hlock hawake hfree =>
    refine ⟨children, h.of_goto ht' rfl ?_ hframe rfl⟩
    have hp := hway hpc
    cases hlock with
    | lookup l | condWait x | relock x child => exact hp
    | _ => trivial
  | lockAgain hpc hfree =>
    -- the mutex is not free: the thread holds it
    have hheld := (h.locked.held _).mpr (by rw [hpc]; rfl)
    rw [hfree] at hheld
    cases hheld
  | getRootDir hpc =>
    refine ⟨children, ?_⟩
    unfold vfsGetRootDir at ht' ⊢
    split at ht' <;> exact h.of_goto (q := .getRootDirDone _ _) ht' rfl trivial hframe rfl
  | @pathTooLong t l hpc hlen =>
    refine ⟨children, h.returnLookup ht' rfl hframe rfl fun hlimits => ?_⟩
    -- the path is longer than the limit, so nothing is promised of it
    exact absurd hlimits.1 (Nat.not_le.mpr hlen)
  | lookupInode hpc hrel hlen => exact ⟨children, h.of_goto ht' rfl hrel hframe rfl⟩
  | @adjusted t c delta hpc =>
    have hp := hway hpc
    cases c with
    | lookupStart l =>
      -- the search starts at the start directory with the whole path ahead
      exact ⟨children, h.of_goto (q := .lookupLoop l _ _) ht' rfl ⟨hp, [], rfl, rfl⟩ hframe rfl⟩
    | lookupFailed l rc =>
      exact ⟨children, h.of_goto (q := .lookupUnlock l _) ht' rfl hp hframe rfl⟩
    | release c i => exact ⟨children, h.of_goto (q := .releaseUnlock _ _) ht' rfl trivial hframe rfl⟩
    | mounted m => exact ⟨children, h.of_goto (q := .mountUnlock _ _) ht' rfl trivial hframe rfl⟩
  | @adjust t c i delta hpc =>
    have hp := hway hpc
    refine ⟨children, h.of_goto (q := .adjustRefcounts c _ delta) ht' rfl ?_ hframe rfl⟩
    cases c <;> exact hp
  | @found t l i hpc =>
    have hp : l.At s.name children i [] := hway hpc
    have hr : Returns files file s.name children l.startDir l.path (.ok i) := hp.returns
    exact ⟨children, h.of_goto (q := .lookupUnlock _ _) ht' rfl hr hframe rfl⟩
  | @badName t l i path rc hpc hpath hname =>
    have hp : l.At s.name children i path := hway hpc
    have hr : Returns files file s.name children l.startDir l.path (.error rc) :=
      hp.returns_of_badName hpath hname
    exact ⟨children, h.of_goto (q := .adjustRefcounts (.lookupFailed l rc) _ _) ht' rfl hr hframe
      rfl⟩
  | @notDir t l i path name rest hpc hpath hname htype =>
    have hp : l.At s.name children i path := hway hpc
    have hr : Returns files file s.name children l.startDir l.path (.error enotdir) :=
      hp.returns_of_notDir h.tree h.types hpath hname htype
    exact ⟨children, h.of_goto (q := .adjustRefcounts (.lookupFailed l _) _ _) ht' rfl hr hframe
      rfl⟩
  | nextName hpc hpath hname htype =>
    have hp := hway hpc
    exact ⟨children, h.of_goto (q := .lockDir _) ht' rfl (hp.search hpath hname htype) hframe rfl⟩
  | wait hpc hheld hbusy =>
    have hp := hway hpc
    exact ⟨children, h.of_goto (q := .condWait _) ht' rfl hp hframe rfl⟩
  | @mark t x hpc hbusy =>
    have hp := hway hpc
    refine ⟨children, h.of_goto (q := .search x _) ht' rfl ⟨hp, fun c hc => ?_⟩ hframe rfl⟩
    -- the first child is on the list
    exact List.mem_of_mem_head? ((h.lists x.dir).chain.head?.trans hc)
  | @miss t x hpc hheld =>
    obtain ⟨hat, -⟩ := hway hpc
    -- the end of the list: no child has the name, so the driver is asked
    simp only [FindsByName, hpc] at hC
    exact ⟨children, h.of_goto (q := .driverLookup x) ht' rfl
      ⟨hat, hC _ (h.lists x.dir)⟩ hframe rfl⟩
  | @hit t x i dirName hpc hname heq =>
    obtain ⟨hat, hchild⟩ := hway hpc
    -- the comparison is with the name of the directory, but the child has the name all the same
    simp only [FindsByName, hpc] at hC
    exact ⟨children, h.of_goto (q := .unlockDir x _) ht' rfl
      ⟨hat, hchild i rfl, hC ⟨dirName, hname, heq⟩⟩ hframe rfl⟩
  | @nextChild t x i dirName hpc hname hne =>
    obtain ⟨hat, hchild⟩ := hway hpc
    refine ⟨children, h.of_goto (q := .search x _) ht' rfl ⟨hat, fun c hc => ?_⟩ hframe rfl⟩
    exact (h.lists x.dir).chain.next_mem (hchild i rfl) hc
  | driverFound hpc =>
    simp only [DriverAnswers, hpc] at hD
    exact h.driverFound hpc hD ht' rfl ⟨rfl, rfl, rfl⟩ rfl rfl rfl
  | @driverFailed t x rc inode hpc hrc =>
    have hp := hway hpc
    -- an error of the driver means that the directory has no file of the name
    simp only [DriverAnswers, hpc, AnswersSearch] at hD
    refine ⟨children, h.of_goto (q := .lookupRelock x _) ht' rfl ⟨hp.1, ?_⟩ hframe rfl⟩
    split at hD
    · exact absurd hD.1 hrc
    next rc' hlookup => exact ⟨rc', hlookup⟩
  | @unlockDirFailed t x rc hpc =>
    obtain ⟨hat, hfinds⟩ := hway hpc
    have hr : Returns files file s.name children x.lookup.startDir x.lookup.path (.error rc) :=
      hat.returns h.tree h.types hfinds
    exact ⟨children, h.of_goto (q := .adjustRefcounts (.lookupFailed x.lookup rc) _ _) ht' rfl hr
      hframe rfl⟩
  | unlockDir hpc =>
    obtain ⟨hat, hfinds⟩ := hway hpc
    exact ⟨children, h.of_goto (q := .lookupLoop _ _ _) ht' rfl (hat.next hfinds) hframe rfl⟩
  | lookupUnlock hpc hheld =>
    have hp := hway hpc
    exact ⟨children, h.returnLookup ht' rfl hframe rfl hp⟩
  | releaseNull hpc => exact ⟨children, h.returnRelease ht' rfl hframe rfl⟩
  | releaseCheck hpc =>
    exact ⟨children, h.of_goto (q := .adjustRefcounts (.release _ _) _ _) ht' rfl trivial hframe
      rfl⟩
  | releaseUnlock hpc hheld => exact ⟨children, h.returnRelease ht' rfl hframe rfl⟩
  | mountCheck hpc =>
    refine ⟨children, ?_⟩
    rcases mountCheck_cases s _ _ with ⟨-, heq⟩ | ⟨-, -, heq⟩ | ⟨-, -, heq⟩
    · rw [heq] at ht' ⊢
      exact h.of_goto (q := .releaseRef _ _) ht' rfl trivial hframe rfl
    · rw [heq] at ht' ⊢
      exact h.of_goto (q := .releaseRef _ _) ht' rfl trivial hframe rfl
    · rw [heq] at ht' ⊢
      exact h.of_goto (q := .mountLock _) ht' rfl trivial hframe rfl
  -- nothing is mounted in such a run, so no thread has come to the store
  | mountStore hpc => exact (hway hpc).elim
  | mountUnlock hpc hheld =>
    exact ⟨children, h.of_goto (q := .releaseRef _ _) ht' rfl trivial hframe rfl⟩
  | mountRootUnlock hpc hheld =>
    refine ⟨children, h.of_move (q := .idle) ht' rfl trivial hframe fun u d path inode hr => .inl ?_⟩
    simpa [record, State.goto] using hr
  | mountDo hpc hdo | mountRootDo hpc hdo => exact hD.elim

omit [DecidableEq T] in
/-- What the threads have returned on their way through the tree is right. -/
theorem OnTheWay.lookupsRight (h : s.OnTheWay files file children) : s.LookupsRight files file := by
  have hwalk : ∀ {u d path i}, Return.lookupInode u d path (.ok i) ∈ s.returned →
      WithinLimits path → Walk s.name children d (components path) i := by
    intro u d path i hr
    exact h.returned u d path (.ok i) hr
  refine ⟨fun u d path i hr hlimits => ?_, fun u d path rc hr => h.returned u d path (.error rc) hr,
    fun u v d path path' i j hi hj hlimits hlimits' hpath => ?_,
    fun u v d d' path path' i j hi hj hlimits hlimits' hne hne' => ?_, fun d => ?_⟩
  · have hresolve : files.resolve (file d) (components path ++ []) = files.resolve (file i) [] :=
      h.tree.resolve_of_walk (hwalk hr hlimits)
    rw [List.append_nil] at hresolve
    exact hresolve
  · have hwj := hwalk hj hlimits'
    rw [← hpath] at hwj
    exact h.tree.walk_unique (hwalk hi hlimits) hwj
  · exact h.tree.walk_name_unique (hwalk hi hlimits) hne (hwalk hj hlimits') hne'
  · exact ⟨children d, h.lists d, h.tree.names d⟩

/-- No thread is in `vfs.c`, no call has returned, and the child lists stand for a part of the file
system. -/
structure CachesFiles (files : Files F) (file : InodeId → F) (s : State T) : Prop where
  locked : s.Locked
  idle : ∀ t, s.pc t = .idle
  returned : s.returned = []
  types : ∀ i, s.type i = files.type (file i)
  lists : ∃ children, Tree files file s.name s.parent children ∧
    ∀ d, IsList (s.childList d) s.link (children d)

omit [DecidableEq T] in
theorem CachesFiles.onTheWay (h : s.CachesFiles files file) :
    ∃ children, s.OnTheWay files file children := by
  obtain ⟨children, htree, hlists⟩ := h.lists
  refine ⟨children, h.locked, htree, hlists, h.types, fun t => ?_, fun t d path inode hr => ?_⟩
  · rw [h.idle]
    trivial
  · rw [h.returned] at hr
    cases hr

/-- The names `a` and `b`. -/
def nameA : Str := letters ['a']

@[inherit_doc nameA]
def nameB : Str := letters ['b']

/-- A directory with two files. -/
def twoFiles : Files InodeId where
  type f := if f = 0 then .dir else .file
  lookup f name :=
    if f = 0 then if name = nameA then .ok 1 else if name = nameB then .ok 2 else .error einval
    else .error einval

/-- The directory is in memory under the name `dirName`, and none of its children is. -/
def twoFilesTree (dirName : Str) : State (Fin 1) :=
  { initial with
    parent := fun i => if i = 0 then none else some 0
    type := fun i => if i = 0 then .dir else .file
    name := fun i => some (if i = 0 then dirName else if i = 1 then nameA else nameB)
    refcount := Function.update (fun _ => 0) 0 1 }

theorem twoFilesTree_cachesFiles (dirName : Str) :
    (twoFilesTree dirName).CachesFiles twoFiles id := by
  refine ⟨⟨initial_locked.held, initial_locked.busy, initial_locked.unique,
    initial_locked.driverList⟩, fun _ => rfl, rfl, fun _ => rfl, fun _ => [], ?_, fun _ => ?_⟩
  · exact ⟨fun d hd => absurd rfl hd, fun d c hc => absurd hc List.not_mem_nil,
      fun d => List.nodup_nil⟩
  · exact isList_empty

/-- The driver is asked at an empty child list only, and a hit has the name. -/
def FirstSearches (s : State T) : Event T → Prop
  | .resume t =>
      match s.pc t with
      | .search x none => (s.childList x.dir).first = none
      | .search x (some c) => s.name c = some x.name
      | _ => True
  | _ => True

instance (e : Event T) : Decidable (s.FirstSearches e) := by
  induction e using Event.casesOn <;> unfold FirstSearches
  case resume t =>
    dsimp only
    generalize s.pc t = p
    induction p using Pc.casesOn
    case search x child => induction child using Option.casesOn <;> infer_instance
    all_goals infer_instance
  all_goals infer_instance

omit [DecidableEq T] in
theorem FirstSearches.findsByName (h : s.FirstSearches e) : s.FindsByName e := by
  cases e with
  | resume t =>
    cases hpc : s.pc t with
    | search x child =>
      cases child with
      | none =>
        simp only [FirstSearches, hpc] at h
        simp only [FindsByName, hpc]
        intro children hlist c hc
        -- a list without a first child is empty
        have hnil : children = [] := by
          rw [← List.head?_eq_none_iff, hlist.chain.head?, h]
        rw [hnil] at hc
        cases hc
      | some c =>
        simp only [FirstSearches, hpc] at h
        simp only [FindsByName, hpc]
        exact fun _ => h
    | _ => simp only [FindsByName, hpc]
  | _ => trivial

instance (x : Search) (rc : ℤ) (inode : Option InodeId) :
    Decidable (s.AnswersSearch twoFiles id x rc inode) := by
  unfold AnswersSearch
  split <;> infer_instance

instance (e : Event T) : Decidable (s.DriverAnswers twoFiles id e) := by
  induction e using Event.casesOn <;> unfold DriverAnswers
  case driverLookup t rc inode =>
    dsimp only
    generalize s.pc t = p
    induction p using Pc.casesOn <;> infer_instance
  all_goals infer_instance

attribute [local instance] neZero_one in
/-- A lookup that asks the driver. -/
def lookupAsks (path : Str) (inode : InodeId) : List (Event (Fin 1)) :=
  .lookupInode 0 0 path :: List.replicate 7 (.resume 0) ++
    .driverLookup 0 0 (some inode) :: List.replicate 4 (.resume 0)

attribute [local instance] neZero_one in
/-- A lookup that hits the first child. -/
def lookupHits (path : Str) : List (Event (Fin 1)) :=
  .lookupInode 0 0 path :: List.replicate 10 (.resume 0)

end State

end GeekOS.Vfs
