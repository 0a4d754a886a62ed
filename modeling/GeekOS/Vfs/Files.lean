import GeekOS.Vfs.State

/-!
# What a lookup is for

A file system seen from above: files, some of which are directories, and a map from a directory and
a name to a file. A path means the file that one comes to by going through its components.

The inodes in memory are a tree that stands for a part of it. `Walk` goes through the child lists
of the tree.

* `resolve`: the file that a list of components leads to;
* `Tree`: the child lists, each inode of which stands for the file of its name in its directory,
  with no two children of one name in a directory;
* `Tree.resolve_of_walk`, `Tree.walk_unique`, `Tree.walk_name_unique`: in such a tree a walk leads
  to the right file, and to one inode only.
-/

namespace GeekOS.Vfs

/-- The files of type `F`, and what the names in a directory are names of. -/
structure Files (F : Type*) where
  type : F → InodeType
  lookup : F → Str → Except ℤ F

/-- The file that `names` lead to from `f`, one by one. -/
def Files.resolve {F : Type*} (files : Files F) : F → List Str → Except ℤ F
  | f, [] => .ok f
  | f, name :: names =>
      if files.type f = .dir then
        match files.lookup f name with
        | .ok g => files.resolve g names
        | .error rc => .error rc
      else .error enotdir

/-- From `d` the walk comes to `i`, going from each inode to a child of the next name. -/
def Walk (name : InodeId → Option Str) (children : InodeId → List InodeId) :
    InodeId → List Str → InodeId → Prop
  | d, [], i => i = d
  | d, n :: names, i => ∃ c ∈ children d, name c = some n ∧ Walk name children c names i

section Walk

variable {name : InodeId → Option Str} {children children' : InodeId → List InodeId}

/-- A walk can go on. -/
theorem Walk.append {d i j : InodeId} {names names' : List Str} (h : Walk name children d names i)
    (h' : Walk name children i names' j) : Walk name children d (names ++ names') j := by
  induction names generalizing d with
  | nil =>
    obtain rfl : i = d := h
    exact h'
  | cons n names ih =>
    obtain ⟨c, hc, hn, hw⟩ := h
    exact ⟨c, hc, hn, ih hw⟩

/-- It is still one when the child lists have grown. -/
theorem Walk.mono {d i : InodeId} {names : List Str} (h : Walk name children d names i)
    (hsub : ∀ d, ∀ c ∈ children d, c ∈ children' d) : Walk name children' d names i := by
  induction names generalizing d with
  | nil => exact h
  | cons n names ih =>
    obtain ⟨c, hc, hn, hw⟩ := h
    exact ⟨c, hsub d c hc, hn, ih hw⟩

end Walk

/-- The child lists stand for a part of the file system. -/
structure Tree {F : Type*} (files : Files F) (file : InodeId → F) (name : InodeId → Option Str)
    (parent : InodeId → Option InodeId) (children : InodeId → List InodeId) : Prop where
  dir : ∀ d, children d ≠ [] → files.type (file d) = .dir
  child : ∀ d, ∀ c ∈ children d, parent c = some d ∧
    ∃ n, name c = some n ∧ files.lookup (file d) n = .ok (file c)
  names : ∀ d, ((children d).map name).Nodup

namespace Tree

variable {F : Type*} {files : Files F} {file : InodeId → F} {name : InodeId → Option Str}
  {parent : InodeId → Option InodeId} {children : InodeId → List InodeId}

/-- A directory has one child of a name. -/
theorem child_unique (h : Tree files file name parent children) {d c c' : InodeId}
    (hc : c ∈ children d) (hc' : c' ∈ children d) (hn : name c = name c') : c = c' :=
  List.inj_on_of_nodup_map (h.names d) hc hc' hn

/-- A child stands for the file of its name. -/
theorem lookup_eq (h : Tree files file name parent children) {d c : InodeId} {n : Str}
    (hc : c ∈ children d) (hn : name c = some n) : files.lookup (file d) n = .ok (file c) := by
  obtain ⟨-, m, hm, hlookup⟩ := h.child d c hc
  obtain rfl : m = n := Option.some.inj (hm.symm.trans hn)
  exact hlookup

/-- From the file of the directory one comes to the file of the child. -/
theorem resolve_cons (h : Tree files file name parent children) {d c : InodeId} {n : Str}
    {names : List Str} (hc : c ∈ children d) (hn : name c = some n) :
    files.resolve (file d) (n :: names) = files.resolve (file c) names := by
  have hdir : files.type (file d) = .dir := h.dir d (List.ne_nil_of_mem hc)
  rw [Files.resolve, if_pos hdir, h.lookup_eq hc hn]

/-- A walk leads where the components lead; what follows them is what follows its end. -/
theorem resolve_of_walk (h : Tree files file name parent children) {d i : InodeId}
    {names rest : List Str} (hw : Walk name children d names i) :
    files.resolve (file d) (names ++ rest) = files.resolve (file i) rest := by
  induction names generalizing d with
  | nil =>
    obtain rfl : i = d := hw
    rfl
  | cons n names ih =>
    obtain ⟨c, hc, hn, hw⟩ := hw
    rw [List.cons_append, h.resolve_cons hc hn, ih hw]

/-- A walk has one end. -/
theorem walk_unique (h : Tree files file name parent children) {d i j : InodeId}
    {names : List Str} (hi : Walk name children d names i) (hj : Walk name children d names j) :
    i = j := by
  induction names generalizing d with
  | nil => exact Eq.trans hi (Eq.symm hj)
  | cons n names ih =>
    obtain ⟨c, hc, hn, hi⟩ := hi
    obtain ⟨c', hc', hn', hj⟩ := hj
    obtain rfl : c = c' := h.child_unique hc hc' (hn.trans hn'.symm)
    exact ih hi hj

/-- A walk along a name at least ends at a child. -/
theorem walk_child {d i : InodeId} {names : List Str} (hw : Walk name children d names i)
    (hne : names ≠ []) : ∃ d', i ∈ children d' := by
  induction names generalizing d with
  | nil => exact absurd rfl hne
  | cons n names ih =>
    obtain ⟨c, hc, -, hw⟩ := hw
    cases names with
    | nil =>
      obtain rfl : i = c := hw
      exact ⟨d, hc⟩
    | cons m names => exact ih hw (List.cons_ne_nil m names)

/-- Where two walks end at one name in one directory, they end at one inode. -/
theorem walk_name_unique (h : Tree files file name parent children) {d d' i j : InodeId}
    {names names' : List Str} (hi : Walk name children d names i) (hne : names ≠ [])
    (hj : Walk name children d' names' j) (hne' : names' ≠ []) (hparent : parent i = parent j)
    (hname : name i = name j) : i = j := by
  obtain ⟨p, hp⟩ := walk_child hi hne
  obtain ⟨q, hq⟩ := walk_child hj hne'
  rw [(h.child p i hp).1, (h.child q j hq).1] at hparent
  obtain rfl : p = q := Option.some.inj hparent
  exact h.child_unique hp hq hname

/-- A child of a new name keeps the tree. -/
theorem append (h : Tree files file name parent children) {d i : InodeId} {n : Str}
    (hdir : files.type (file d) = .dir) (hparent : parent i = some d) (hn : name i = some n)
    (hlookup : files.lookup (file d) n = .ok (file i)) (hnew : ∀ c ∈ children d, name c ≠ some n) :
    Tree files file name parent (Function.update children d (children d ++ [i])) := by
  refine ⟨fun d' hne => ?_, fun d' c hc => ?_, fun d' => ?_⟩
  · rcases eq_or_ne d' d with rfl | hd
    · exact hdir
    · rw [Function.update_of_ne hd] at hne
      exact h.dir d' hne
  · rcases eq_or_ne d' d with rfl | hd
    · rw [Function.update_self, List.mem_append, List.mem_singleton] at hc
      rcases hc with hc | rfl
      · exact h.child d' c hc
      · exact ⟨hparent, n, hn, hlookup⟩
    · rw [Function.update_of_ne hd] at hc
      exact h.child d' c hc
  · rcases eq_or_ne d' d with rfl | hd
    · rw [Function.update_self, List.map_append, List.map_singleton, hn]
      refine List.nodup_append.mpr ⟨h.names d', List.nodup_singleton _, ?_⟩
      intro a ha b hb hab
      obtain ⟨c, hc, rfl⟩ := List.mem_map.mp ha
      rw [List.mem_singleton] at hb
      exact hnew c hc (hab.trans hb)
    · rw [Function.update_of_ne hd]
      exact h.names d'

end Tree

end GeekOS.Vfs
