import GeekOS.Strings.Routines

/-!
# Paths in memory

`vfs_has_more_path_elements` and `vfs_get_next_path_element` on the characters of the path and of
the name buffer. The path is a block and the index of the cell to which the pointer has come; a
`while` loop has a bound on its number of rounds.

* `nextSeparator_eq`, `skipSeparators_eq`: where the two loops end;
* `vfsGetNextPathElement_eq`: on a string the function does what `Vfs.vfsGetNextPathElement` says,
  with the name in the buffer.
-/

namespace GeekOS.Vfs.Tokenizer

open CString Result Strings

/-- What halts the kernel or goes wrong in a path's memory. -/
inductive Fault
  /-- A character outside of the path or of the name buffer. -/
  | outside
  /-- A loop that has not come to its end. -/
  | unfinished
  /-- `*path != '/'` in `vfs_lookup_inode`. -/
  | relativePath
  /-- `*p != '/'` in `vfs_get_next_path_element`. -/
  | separator
  /-- The assertion on the length of the name there. -/
  | nameLength
  /-- `!vfs_has_more_path_elements(path)` at the end of `vfs_lookup_inode`. -/
  | morePathElements
  /-- The assertions on the reference count in `vfs_lookup_inode`. -/
  | refcount
  deriving DecidableEq, Repr

/-! ## Definitions -/

/-- `vfs_has_more_path_elements`. -/
def vfsHasMorePathElements (path : Block Char) (p : ℕ) : Except Fault Bool := do
  let c ← load .outside path p
  pure (c ≠ nul)

/-- The loop of `vfs_get_next_path_element` that searches for the next separator or the end of the
string. -/
def nextSeparator (path : Block Char) : ℕ → ℕ → Except Fault ℕ
  | 0, _ => throw .unfinished
  | rounds + 1, p => do
      let c ← load .outside path p
      if c ≠ slash.1 ∧ c ≠ nul then nextSeparator path rounds (p + 1) else pure p

/-- The loop of `vfs_get_next_path_element` that skips over separators. -/
def skipSeparators (path : Block Char) : ℕ → ℕ → Except Fault ℕ
  | 0, _ => throw .unfinished
  | rounds + 1, p => do
      let c ← load .outside path p
      if c = slash.1 then skipSeparators path rounds (p + 1) else pure p

/-- `vfs_get_next_path_element`: an error code, or the new pointer into the path and the buffer with
the name. -/
def vfsGetNextPathElement (rounds : ℕ) (path : Block Char) (start : ℕ) (namebuf : Block Char) :
    Except Fault (Except ℤ (ℕ × Block Char)) := do
  let c ← load .outside path start
  require (c ≠ slash.1) .separator
  let p ← nextSeparator path rounds start
  let namelen := p - start
  if namelen > vfsNamelenMax then
    -- the buffer has not been touched
    pure (.error einval)
  else do
    let namebuf ← memcpy .outside namebuf 0 path start namelen
    let namebuf ← store .outside namebuf namelen nul
    let len ← Strings.strnlen .outside namebuf 0 (vfsNamelenMax + 1)
    require (len ≤ vfsNamelenMax) .nameLength
    let p ← skipSeparators path rounds p
    pure (.ok (p, namebuf))

variable {path namebuf : Block Char} {p start rounds : ℕ} {s : Str}

/-! ## The loops -/

/-- The character to which the pointer points, at the beginning of a relative path. -/
theorem exists_head (h : Holds path p s) (hhead : s.head? ≠ some slash) :
    ∃ c, path p = some c ∧ c ≠ slash.1 := by
  cases s with
  | nil =>
    cases h with
    | nil hz => exact ⟨nul, hz, by decide⟩
  | cons c s =>
    cases h with
    | cons hc => exact ⟨c, hc, mt Subtype.ext (by simpa using hhead)⟩

theorem vfsHasMorePathElements_eq (h : Holds path p s) :
    vfsHasMorePathElements path p = .ok (Vfs.vfsHasMorePathElements s) := by
  rw [vfsHasMorePathElements]
  cases s with
  | nil =>
    cases h with
    | nil hz => rw [load_eq hz]; rfl
  | cons c s =>
    cases h with
    | cons hc hne =>
      rw [load_eq hc, ok_bind, decide_eq_true hne]
      rfl

theorem nextSeparator_eq (h : Holds path p s) (hrounds : s.length < rounds) :
    nextSeparator path rounds p = .ok (p + (s.takeWhile (· != slash)).length) := by
  induction s generalizing p rounds with
  | nil =>
    obtain ⟨rounds, rfl⟩ := Nat.exists_eq_succ_of_ne_zero (Nat.ne_of_gt hrounds)
    cases h with
    | nil hz =>
      rw [nextSeparator, load_eq hz, ok_bind, if_neg (by simp)]
      rfl
  | cons c s ih =>
    obtain ⟨rounds, rfl⟩ := Nat.exists_eq_succ_of_ne_zero (Nat.ne_of_gt (Nat.zero_lt_of_lt hrounds))
    cases h with
    | cons hc hne h =>
      rw [nextSeparator, load_eq hc, ok_bind]
      -- neither loop goes past the terminator, which is no separator
      by_cases hslash : c = slash
      · rw [if_neg (by simp [hslash]), List.takeWhile_cons_of_neg (by simp [hslash])]
        rfl
      · rw [if_pos ⟨mt Subtype.ext hslash, hne⟩, ih h (Nat.lt_of_succ_lt_succ hrounds),
          List.takeWhile_cons_of_pos (by simpa using hslash), List.length_cons,
          Nat.add_right_comm, Nat.add_assoc]

theorem skipSeparators_eq (h : Holds path p s) (hrounds : s.length < rounds) :
    ∃ q, skipSeparators path rounds p = .ok q ∧ Holds path q (s.dropWhile (· == slash)) := by
  induction s generalizing p rounds with
  | nil =>
    obtain ⟨rounds, rfl⟩ := Nat.exists_eq_succ_of_ne_zero (Nat.ne_of_gt hrounds)
    refine ⟨p, ?_, h⟩
    cases h with
    | nil hz =>
      rw [skipSeparators, load_eq hz, ok_bind, if_neg (by decide)]
      rfl
  | cons c s ih =>
    obtain ⟨rounds, rfl⟩ := Nat.exists_eq_succ_of_ne_zero (Nat.ne_of_gt (Nat.zero_lt_of_lt hrounds))
    by_cases hslash : c = slash
    · cases h with
      | cons hc hne h =>
        rw [skipSeparators, load_eq hc, ok_bind, if_pos (by rw [hslash]),
          List.dropWhile_cons_of_pos (by simp [hslash])]
        exact ih h (Nat.lt_of_succ_lt_succ hrounds)
    · rw [List.dropWhile_cons_of_neg (by rwa [beq_iff_eq])]
      refine ⟨p, ?_, h⟩
      cases h with
      | cons hc =>
        rw [skipSeparators, load_eq hc, ok_bind, if_neg (mt Subtype.ext hslash)]
        rfl

/-! ## One element -/

/-- The buffer with a name and its terminator. -/
def named (namebuf : Block Char) (name : Str) : Block Char :=
  write namebuf 0 (name.map Subtype.val ++ [nul])

theorem holds_named (namebuf : Block Char) (name : Str) : Holds (named namebuf name) 0 name :=
  isString_write (nul_not_mem name)

/-- The call on memory fails with the error code of the call on the string, or puts the name into
the buffer and comes to the rest of the string. -/
theorem vfsGetNextPathElement_eq (h : Holds path p s) (hhead : s.head? ≠ some slash)
    (hroom : Room namebuf 0 (vfsNamelenMax + 1)) (hrounds : s.length < rounds) :
    (∃ rc, Vfs.vfsGetNextPathElement s = .ok (.error rc) ∧
      vfsGetNextPathElement rounds path p namebuf = .ok (.error rc)) ∨
    ∃ name rest q, Vfs.vfsGetNextPathElement s = .ok (.ok (name, rest)) ∧
      vfsGetNextPathElement rounds path p namebuf = .ok (.ok (q, named namebuf name)) ∧
        Holds path q rest := by
  have hsplit : s.takeWhile (· != slash) ++ s.dropWhile (· != slash) = s :=
    List.takeWhile_append_dropWhile
  have hnext := nextSeparator_eq h hrounds
  obtain ⟨c, hc, hne⟩ := exists_head h hhead
  have hreq : require (c ≠ slash.1) Fault.separator = .ok () := require_eq_ok.mpr hne
  have hreqs : require (s.head? ≠ some slash) Vfs.Fault.separator = .ok () :=
    require_eq_ok.mpr hhead
  rw [vfsGetNextPathElement, load_eq hc, ok_bind, hreq, ok_bind, hnext, ok_bind,
    Vfs.vfsGetNextPathElement, hreqs, ok_bind]
  dsimp only
  rw [Nat.add_sub_cancel_left]
  generalize hname : s.takeWhile (· != slash) = name at hsplit
  by_cases hlen : name.length > vfsNamelenMax
  · rw [if_pos hlen, if_pos hlen]
    exact .inl ⟨einval, rfl, rfl⟩
  · rw [if_neg hlen, if_neg hlen]
    have hle : name.length ≤ vfsNamelenMax := Nat.le_of_not_lt hlen
    -- the characters of the name, and what stands behind them
    rw [← hsplit, Holds, List.map_append] at h
    have hrest : Holds path (p + name.length) (s.dropWhile (· != slash)) := by
      have hdrop := h.drop
      rwa [List.length_map] at hdrop
    have hcopy : Room namebuf 0 name.length := hroom.mono (Nat.le_succ_of_le hle)
    -- there is a cell for the terminator behind the longest name
    have hlast : Room (write namebuf 0 (name.map Subtype.val)) name.length 1 := by
      intro i hi
      rw [isSome_write (by rwa [List.length_map])]
      simpa using hroom (name.length + i) (by omega)
    have hnamed : Function.update (write namebuf 0 (name.map Subtype.val)) name.length (some nul) =
        named namebuf name := by
      rw [named, write_append, List.length_map, Nat.zero_add, write, write_nil]
    have hshort : Vfs.strnlen name (vfsNamelenMax + 1) ≤ vfsNamelenMax :=
      (Nat.min_le_left ..).trans hle
    have hreq' : require (Vfs.strnlen name (vfsNamelenMax + 1) ≤ vfsNamelenMax) Fault.nameLength =
        .ok () := require_eq_ok.mpr hshort
    -- the second loop goes on where the first one has ended
    obtain ⟨q, hskip, hq⟩ := skipSeparators_eq hrest
      (Nat.lt_of_le_of_lt (List.length_dropWhile_le ..) hrounds)
    refine .inr ⟨name, _, q, rfl, ?_, hq⟩
    rw [memcpy_eq h hcopy, ok_bind, store_eq hlast, ok_bind, hnamed,
      strnlen_eq (holds_named namebuf name), ok_bind, hreq', ok_bind, hskip]
    rfl

end GeekOS.Vfs.Tokenizer
