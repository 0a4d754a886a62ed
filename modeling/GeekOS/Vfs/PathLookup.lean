import GeekOS.Vfs.Step
import GeekOS.Vfs.Tokenizer

/-!
# The loop of `vfs_lookup_inode`

`vfs_lookup_inode` on the characters of its path, up to the label `done`. The directories on its way
are those of other threads too: what `vfs_lock_dir`, `vfs_lookup_child` and `vfs_unlock_dir` come to
in a round is not determined by the path, and `Surroundings` lets it be anything.

* `Extracts`: the name buffer, each time an element had been extracted, with these names;
* `searchLoop_eq`: what the loop comes to from some point of the path on;
* `extracts_of_lookup`: what `vfs_lookup_inode` makes of a relative path.
-/

namespace GeekOS.Vfs.Tokenizer

open CString Result Strings

/-- The inodes, with reference counts that are never negative. -/
structure Inodes where
  type : InodeId → InodeType
  refcount : InodeId → ℤ
  nonneg : ∀ i, 0 ≤ refcount i

/-- `inode->refcount++`. -/
def Inodes.count (s : Inodes) (inode : InodeId) : Inodes where
  type := s.type
  refcount := Function.update s.refcount inode (s.refcount inode + 1)
  nonneg i := by
    by_cases hi : i = inode
    · subst hi
      rw [Function.update_self]
      exact Int.add_nonneg (s.nonneg i) Int.one_nonneg
    · rw [Function.update_of_ne hi]
      exact s.nonneg i

/-- `vfs_adjust_refcounts` with a delta of 1 on an inode and those above it. -/
def Inodes.adjust (s : Inodes) (inodes : List InodeId) : Inodes := inodes.foldl Inodes.count s

/-- What `vfs_lookup_inode` calls and waits for. -/
structure Surroundings where
  /-- What other threads do while the call waits for `s_fs_mutex`. -/
  waits : Inodes → Inodes
  /-- The inodes above one. -/
  above : InodeId → List InodeId
  /-- In the round of this number, `vfs_lock_dir`, `vfs_lookup_child` and `vfs_unlock_dir` on a
  directory and the name buffer, and what other threads do meanwhile. -/
  search : ℕ → Inodes → InodeId → Block Char → Except ℤ InodeId × Inodes

/-- How a call comes to its end. -/
inductive Stop
  /-- It returns before it has allocated the name buffer. -/
  | rejected (rc : ℤ)
  /-- It has found the inode. -/
  | found (inode : InodeId)
  /-- It has failed at an inode, and gives the references back from there on. -/
  | failed (rc : ℤ) (inode : InodeId)
  deriving DecidableEq, Repr

/-- The end of a call, with the name buffer as it was each time an element had been extracted. -/
structure Outcome where
  stop : Stop
  extracted : List (Block Char)
  inodes : Inodes

/-- The loop of `vfs_lookup_inode`, and the assertions behind it. -/
def searchLoop (env : Surroundings) (rounds : ℕ) (path : Block Char) :
    ℕ → ℕ → Block Char → InodeId → Inodes → List (Block Char) → Except Fault Outcome
  | 0, _, _, _, _, _ => throw .unfinished
  | n + 1, p, name, inode, s, extracted => do
      if ← vfsHasMorePathElements path p then
        match ← vfsGetNextPathElement rounds path p name with
        | .error rc => pure ⟨.failed rc inode, extracted, s⟩
        | .ok (p, name) =>
            let extracted := extracted ++ [name]
            -- the type is looked at once the name has been extracted
            if s.type inode ≠ .dir then
              pure ⟨.failed enotdir inode, extracted, s⟩
            else
              match env.search extracted.length s inode name with
              | (.error rc, s) => pure ⟨.failed rc inode, extracted, s⟩
              | (.ok child, s) => searchLoop env rounds path n p name child (s.count child) extracted
      else do
        -- the assertions behind the loop
        let more ← vfsHasMorePathElements path p
        require (more = false) .morePathElements
        require (0 < s.refcount inode) .refcount
        pure ⟨.found inode, extracted, s⟩

/-- `vfs_lookup_inode`, up to its label `done`. -/
def vfsLookupInode (env : Surroundings) (rounds : ℕ) (fresh : ℕ → Char) (startDir : InodeId)
    (path : Block Char) (p : ℕ) (s : Inodes) : Except Fault Outcome := do
  let c ← load .outside path p
  require (c ≠ slash.1) .relativePath
  require (0 < s.refcount startDir) .refcount
  let len ← Strings.strnlen .outside path p (vfsPathlenMax + 1)
  if len > vfsPathlenMax then
    pure ⟨.rejected einval, [], s⟩
  else
    let name := memAlloc (vfsNamelenMax + 1) fresh
    -- the references are taken when `s_fs_mutex` has been got
    let s := (env.waits s).adjust (startDir :: env.above startDir)
    searchLoop env rounds path rounds p name startDir s []

/-- The buffers have these names, and are those of a name buffer: no character has been stored
outside of it. -/
def Extracts (buffers : List (Block Char)) (names : List Str) : Prop :=
  List.Forall₂ (fun buffer name => Holds buffer 0 name ∧
    ∀ k, (buffer k).isSome ↔ k < vfsNamelenMax + 1) buffers names

/-- The inode that the searches for these names have led to, one round for each name. -/
inductive Leads (env : Surroundings) (startDir : InodeId) : List (Block Char) → InodeId → Prop
  | start : Leads env startDir [] startDir
  | child {buffers : List (Block Char)} {buffer : Block Char} {dir inode : InodeId} {s s' : Inodes}
      (h : Leads env startDir buffers dir)
      (hsearch : env.search (buffers ++ [buffer]).length s dir buffer = (.ok inode, s')) :
      Leads env startDir (buffers ++ [buffer]) inode

/-- Why a search with these components left has stopped. It has come to the inode by all names that it
has extracted, and there is none left or the next one is too long. Or it has come there by all names
but the last one, and the inode is not a directory or its search for that name has failed. -/
def Stopped (env : Surroundings) (startDir : InodeId) (rest : List Str) (out : Outcome) : Prop :=
  match out.stop with
  | .rejected _ => False
  | .found inode => rest = [] ∧ Leads env startDir out.extracted inode
  | .failed rc inode =>
      (rc = einval ∧ Leads env startDir out.extracted inode ∧
        ∃ name ∈ rest.head?, vfsNamelenMax < name.length) ∨
      ∃ buffers buffer, out.extracted = buffers ++ [buffer] ∧ Leads env startDir buffers inode ∧
        (rc = enotdir ∧ out.inodes.type inode ≠ .dir ∨
          ∃ s, env.search out.extracted.length s inode buffer = (.error rc, out.inodes))

variable {env : Surroundings} {path name : Block Char} {p n rounds : ℕ} {str rest : Str}
  {s : Inodes} {inode startDir : InodeId} {extracted : List (Block Char)}

/-! ## Reference counts -/

theorem Inodes.refcount_count (s : Inodes) (inode : InodeId) :
    (s.count inode).refcount = Function.update s.refcount inode (s.refcount inode + 1) := rfl

theorem Inodes.count_pos (s : Inodes) (inode : InodeId) : 0 < (s.count inode).refcount inode := by
  rw [refcount_count, Function.update_self]
  exact Int.lt_add_one_of_le (s.nonneg inode)

theorem Inodes.le_count (s : Inodes) (i inode : InodeId) :
    s.refcount i ≤ (s.count inode).refcount i := by
  rw [refcount_count]
  by_cases hi : i = inode
  · subst hi
    rw [Function.update_self]
    omega
  · exact Int.le_of_eq (Function.update_of_ne hi ..).symm

theorem Inodes.le_adjust (s : Inodes) (inodes : List InodeId) (i : InodeId) :
    s.refcount i ≤ (s.adjust inodes).refcount i := by
  induction inodes generalizing s with
  | nil => exact Int.le_refl _
  | cons inode inodes ih => exact Int.le_trans (s.le_count i inode) (ih (s.count inode))

/-- The start directory has a reference once the counts have been adjusted. -/
theorem Inodes.adjust_pos (s : Inodes) (inode : InodeId) (inodes : List InodeId) :
    0 < (s.adjust (inode :: inodes)).refcount inode :=
  Int.lt_of_lt_of_le (s.count_pos inode) ((s.count inode).le_adjust inodes inode)

/-! ## The loop -/

theorem hasMore_of_ne (hne : str ≠ []) : Vfs.vfsHasMorePathElements str = true := by
  cases str with
  | nil => exact absurd rfl hne
  | cons => rfl

/-- What is left of a path behind its first component is shorter. -/
theorem length_rest_lt {elem : Str} (hne : str ≠ [])
    (hnext : Vfs.vfsGetNextPathElement str = .ok (.ok (elem, rest))) :
    rest.length < str.length := by
  obtain ⟨_, hreq, hnext⟩ := bind_eq_ok.mp hnext
  have hhead := require_eq_ok.mp hreq
  dsimp only at hnext
  split at hnext
  · cases hnext
  · cases hnext
    cases str with
    | nil => exact absurd rfl hne
    | cons c str =>
      have hc : c ≠ slash := by simpa using hhead
      rw [List.dropWhile_cons_of_pos (by rwa [bne_iff_ne])]
      exact Nat.lt_succ_of_le ((List.length_dropWhile_le ..).trans (List.length_dropWhile_le ..))

/-- An element that cannot be extracted is a first component that is too long. -/
theorem head_of_badName {rc : ℤ} (hne : str ≠ [])
    (hnext : Vfs.vfsGetNextPathElement str = .ok (.error rc)) :
    rc = einval ∧ ∃ elem ∈ (components str).head?, vfsNamelenMax < elem.length := by
  obtain ⟨_, hreq, hnext⟩ := bind_eq_ok.mp hnext
  have hhead := require_eq_ok.mp hreq
  rw [components_takeWhile hne hhead]
  dsimp only at hnext
  split at hnext
  next hlen =>
    cases hnext
    exact ⟨rfl, _, rfl, hlen⟩
  next => cases hnext

/-- An element that has been extracted is the first component. -/
theorem components_of_next {elem : Str} (hne : str ≠ []) (hhead : str.head? ≠ some slash)
    (hnext : Vfs.vfsGetNextPathElement str = .ok (.ok (elem, rest))) :
    components str = elem :: components rest ∧ elem.length ≤ vfsNamelenMax ∧
      rest.head? ≠ some slash := by
  rcases vfsGetNextPathElement_ok hne hhead with ⟨_, -, -, herr⟩ | ⟨elem', rest', hok, hcomp⟩
  · rw [hnext] at herr
    cases herr
  · rw [hnext] at hok
    cases hok
    exact hcomp

/-- The cells of a name buffer. -/
def Cells (buffer : Block Char) : Prop := ∀ k, (buffer k).isSome ↔ k < vfsNamelenMax + 1

theorem Cells.room (h : Cells name) : Room name 0 (vfsNamelenMax + 1) := by
  intro k hk
  rw [Nat.zero_add]
  exact (h k).mpr hk

theorem Cells.named (h : Cells name) {elem : Str} (hlen : elem.length ≤ vfsNamelenMax) :
    Cells (named name elem) := by
  intro k
  have hroom : Room name 0 (elem.map Subtype.val ++ [nul]).length := by
    refine h.room.mono ?_
    rw [List.length_append, List.length_map]
    exact Nat.succ_le_succ hlen
  rw [Tokenizer.named, isSome_write hroom]
  exact h k

theorem cells_memAlloc (fresh : ℕ → Char) : Cells (memAlloc (vfsNamelenMax + 1) fresh) := by
  intro k
  unfold memAlloc
  split <;> simp [*]

/-- The loop comes to its end from every point of a path, and on its way it extracts the components
that are left, up to the point where it stops. -/
theorem searchLoop_eq (h : Holds path p str) (hhead : str.head? ≠ some slash) (hcells : Cells name)
    (hpos : 0 < s.refcount inode) (hrounds : str.length < rounds) (hn : str.length < n)
    (hleads : Leads env startDir extracted inode) :
    ∃ out names rest buffers, searchLoop env rounds path n p name inode s extracted = .ok out ∧
      components str = names ++ rest ∧ (∀ elem ∈ names, elem.length ≤ vfsNamelenMax) ∧
      out.extracted = extracted ++ buffers ∧ Extracts buffers names ∧
      Stopped env startDir rest out := by
  -- on the number of rounds; what is left of the path becomes shorter in each of them
  induction n generalizing p str name inode s extracted with
  | zero => cases hn
  | succ n ih =>
    rw [searchLoop, vfsHasMorePathElements_eq h, ok_bind]
    by_cases hne : str = []
    · -- the end of the path
      subst hne
      have hmore : require (Vfs.vfsHasMorePathElements [] = false) Fault.morePathElements =
          .ok () := require_eq_ok.mpr rfl
      have hreq : require (0 < s.refcount inode) Fault.refcount = .ok () := require_eq_ok.mpr hpos
      refine ⟨⟨.found inode, extracted, s⟩, [], [], [], ?_, rfl, by simp, by simp, .nil,
        rfl, by simpa using hleads⟩
      rw [if_neg (by decide), ok_bind, hmore, ok_bind, hreq]
      rfl
    · rw [if_pos (hasMore_of_ne hne)]
      rcases vfsGetNextPathElement_eq h hhead hcells.room hrounds with
        ⟨rc, hlist, hmem⟩ | ⟨elem, rest, q, hlist, hmem, hq⟩
      · -- the next component is too long
        obtain ⟨hrc, hlong⟩ := head_of_badName hne hlist
        refine ⟨⟨.failed rc inode, extracted, s⟩, [], components str, [], ?_, rfl, by simp, by simp,
          .nil, .inl ⟨hrc, hleads, hlong⟩⟩
        rw [hmem, ok_bind]
        rfl
      · obtain ⟨hcomp, hlen, hrest⟩ := components_of_next hne hhead hlist
        have hcells' := hcells.named hlen
        have hbuffer : Extracts [named name elem] [elem] :=
          .cons ⟨holds_named name elem, hcells'⟩ .nil
        have hone : ∀ e ∈ [elem], e.length ≤ vfsNamelenMax := by simpa using hlen
        rw [hmem, ok_bind]
        dsimp only
        by_cases htype : s.type inode = .dir
        · rw [if_neg (not_not.mpr htype)]
          cases hsearch : env.search (extracted ++ [named name elem]).length s inode
              (named name elem) with
          | mk child s' =>
            cases child with
            | error rc =>
              -- the directory has no such child
              refine ⟨⟨.failed rc inode, extracted ++ [named name elem], s'⟩, [elem],
                components rest, [named name elem], rfl, hcomp, hone, rfl, hbuffer,
                .inr ⟨extracted, named name elem, rfl, hleads, .inr ⟨s, hsearch⟩⟩⟩
            | ok child =>
              -- the search goes on in the child, with the rest of the path and the same buffer
              have hshort := length_rest_lt hne hlist
              obtain ⟨out, names, rest', buffers, hout, hnames, hlens, hextracted, hbuffers,
                hstopped⟩ := @ih (named name elem) q rest (s'.count child) child
                  (extracted ++ [named name elem]) hq hrest hcells' (s'.count_pos child) (by omega)
                  (by omega) (hleads.child hsearch)
              refine ⟨out, elem :: names, rest', named name elem :: buffers, hout, ?_, ?_, ?_,
                List.rel_append hbuffer hbuffers, hstopped⟩
              · rw [hcomp, hnames, List.cons_append]
              · exact List.forall_mem_cons.mpr ⟨hlen, hlens⟩
              · rw [hextracted, List.append_assoc]
                rfl
        · -- not a directory, though a name was wanted from it
          rw [if_pos htype]
          refine ⟨⟨.failed enotdir inode, extracted ++ [named name elem], s⟩, [elem],
            components rest, [named name elem], rfl, hcomp, hone, rfl, hbuffer,
            .inr ⟨extracted, named name elem, rfl, hleads, .inl ⟨rfl, htype⟩⟩⟩

/-- What `vfs_lookup_inode` makes of a relative path: it returns `EINVAL` at once, with the inodes
as they were, if the path is too long; otherwise its loop comes to an end and has extracted the
components of the path one after the other, all of them if it finds an inode. No assertion fails. -/
theorem extracts_of_lookup (env : Surroundings) (fresh : ℕ → Char) (startDir : InodeId) (s : Inodes)
    (h : Holds path p str) (hhead : str.head? ≠ some slash) (hpos : 0 < s.refcount startDir)
    (hrounds : str.length < rounds) :
    ∃ out, vfsLookupInode env rounds fresh startDir path p s = .ok out ∧
      (vfsPathlenMax < str.length → out = ⟨.rejected einval, [], s⟩) ∧
      (str.length ≤ vfsPathlenMax →
        ∃ names rest, components str = names ++ rest ∧
          (∀ elem ∈ names, elem.length ≤ vfsNamelenMax) ∧ Extracts out.extracted names ∧
          Stopped env startDir rest out) := by
  obtain ⟨c, hc, hne⟩ := exists_head h hhead
  have hrel : require (c ≠ slash.1) Fault.relativePath = .ok () := require_eq_ok.mpr hne
  have href : require (0 < s.refcount startDir) Fault.refcount = .ok () := require_eq_ok.mpr hpos
  rw [vfsLookupInode, load_eq hc, ok_bind, hrel, ok_bind, href, ok_bind, strnlen_eq h, ok_bind]
  -- `strnlen` stops one character behind the limit, which is enough to tell
  by_cases hlong : vfsPathlenMax < str.length
  · have hlen : Vfs.strnlen str (vfsPathlenMax + 1) > vfsPathlenMax :=
      lt_min hlong (Nat.lt_succ_self _)
    rw [if_pos hlen]
    exact ⟨_, rfl, fun _ => rfl, fun hshort => absurd hlong (Nat.not_lt_of_le hshort)⟩
  · have hlen : ¬Vfs.strnlen str (vfsPathlenMax + 1) > vfsPathlenMax :=
      fun hlen => hlong (lt_of_lt_of_le hlen (min_le_left ..))
    rw [if_neg hlen]
    obtain ⟨out, names, rest, buffers, hout, hcomp, hlens, hextracted, hbuffers, hstopped⟩ :=
      @searchLoop_eq env path (memAlloc (vfsNamelenMax + 1) fresh) p rounds rounds str
        ((env.waits s).adjust (startDir :: env.above startDir)) startDir startDir [] h hhead
        (cells_memAlloc fresh) ((env.waits s).adjust_pos startDir (env.above startDir)) hrounds
        hrounds .start
    refine ⟨out, hout, fun hlong' => absurd hlong' hlong, fun _ => ?_⟩
    rw [hextracted]
    exact ⟨names, rest, hcomp, hlens, hbuffers, hstopped⟩

/-! ## A path with more separators than it needs -/

/-- Every inode is a directory. -/
def allDirs : Inodes := ⟨fun _ => .dir, fun _ => 1, fun _ => Int.one_nonneg⟩

/-- Every directory has a child of every name, and no other thread runs. -/
def everyChild : Surroundings := ⟨id, fun _ => [], fun _ s inode _ => (.ok (inode + 1), s)⟩

/-- A path with repeated and trailing separators. -/
def slashedPath : Str := letters ['a', '/', '/', 'b', '/', '/']

theorem extracts_slashedPath :
    ∃ out, vfsLookupInode everyChild 7 (fun _ => nul) 0 (nameBlock slashedPath) 0 allDirs =
        .ok out ∧
      ∃ names rest, components slashedPath = names ++ rest ∧ Extracts out.extracted names ∧
        Stopped everyChild 0 rest out := by
  have hrounds : slashedPath.length < 7 := by decide
  obtain ⟨out, hout, -, hshort⟩ := extracts_of_lookup everyChild (fun _ => nul) 0 allDirs
    (holds_nameBlock slashedPath) (by decide) (by decide) hrounds
  obtain ⟨names, rest, hcomp, -, hextracted, hstopped⟩ := hshort (by decide)
  exact ⟨out, hout, names, rest, hcomp, hextracted, hstopped⟩

end GeekOS.Vfs.Tokenizer
