import Mathlib.Data.Int.Notation
import Mathlib.Data.List.TakeWhile
import Mathlib.Tactic.Common
import GeekOS.Library.Result

/-!
# Names and paths

The strings of the file system: `strnlen`, `strcmp` and `strncmp` of `string.c`, and the functions
of `vfs.c` that take a path apart.

* `strcmp_eq_zero`: two names compare equal when they are;
* `components`: the components of a path, split at `/` with the empty ones dropped;
* `vfsGetNextPathElement_ok`: one call of `vfs_get_next_path_element` takes the first of them off.
-/

namespace GeekOS.Vfs

open Result

/-- A character of a string: its end is not one of them. -/
abbrev Letter := { c : Char // c.toNat ≠ 0 }

/-- A string, up to its `'\0'`. -/
abbrev Str := List Letter

/-- `'/'`. -/
def slash : Letter := ⟨'/', by decide⟩

/-- The string of these characters. -/
def letters (l : List Char) : Str :=
  l.filterMap fun c => if h : c.toNat ≠ 0 then some ⟨c, h⟩ else none

/-- `VFS_PATHLEN_MAX`. -/
def vfsPathlenMax : ℕ := 1023

/-- `VFS_NAMELEN_MAX`. -/
def vfsNamelenMax : ℕ := 255

/-! ## Error codes -/

/-- `EEXIST`. -/
def eexist : ℤ := -2

/-- `ENOTDIR`. -/
def enotdir : ℤ := -3

/-- `EINVAL`. -/
def einval : ℤ := -4

/-- What halts the kernel or reads memory that is not its own. -/
inductive Fault
  /-- `mutex_lock` by the thread that holds the mutex. -/
  | mutexHeld
  /-- `mutex_unlock`, `cond_wait` or `MUTEX_IS_HELD` in a thread that does not hold the mutex. -/
  | mutexNotHeld
  /-- `*path != '/'` in `vfs_lookup_inode`. -/
  | relativePath
  /-- `*p != '/'` in `vfs_get_next_path_element`. -/
  | separator
  /-- The assertions on the reference count in `vfs_adjust_refcounts`. -/
  | adjustRefcounts
  /-- The assertions on it elsewhere. -/
  | refcount
  /-- `dir->type == VFS_DIR`. -/
  | notDir
  /-- `dir->busy`. -/
  | notBusy
  /-- The assertion on the mount point in `vfs_do_mount`. -/
  | mountpoint
  /-- `root_dir == 0`, where `vfs_do_mount` fails. -/
  | rootDir
  /-- An access through a null pointer. -/
  | nullPointer
  deriving DecidableEq, Repr

/-! ## Strings -/

/-- `strnlen`. -/
def strnlen (s : Str) (maxlen : ℕ) : ℕ := min s.length maxlen

/-- `strcmp`: the difference of the first characters that differ. A `char` is signed in the source, so
that the sign of the difference is another one where a character is above 127; only whether it is
zero is made use of. -/
def strcmp : Str → Str → ℤ
  | [], [] => 0
  | [], d :: _ => -d.1.toNat
  | c :: _, [] => c.1.toNat
  | c :: s₁, d :: s₂ => if c = d then strcmp s₁ s₂ else (c.1.toNat : ℤ) - d.1.toNat

/-- `strncmp`. -/
def strncmp (s₁ s₂ : Str) (limit : ℕ) : ℤ :=
  strcmp (s₁.take limit) (s₂.take limit)

theorem Letter.toNat_inj {c d : Letter} (h : c.1.toNat = d.1.toNat) : c = d := by
  apply Subtype.ext
  rw [← Char.ofNat_toNat c.1, h, Char.ofNat_toNat]

/-- Two strings compare equal when they are. -/
theorem strcmp_eq_zero {s₁ s₂ : Str} : strcmp s₁ s₂ = 0 ↔ s₁ = s₂ := by
  induction s₁ generalizing s₂ with
  | nil =>
    cases s₂ with
    | nil => simp [strcmp]
    | cons d s₂ => simpa [strcmp] using d.2
  | cons c s₁ ih =>
    cases s₂ with
    | nil => simpa [strcmp] using c.2
    | cons d s₂ =>
      rw [strcmp]
      by_cases hcd : c = d
      · rw [if_pos hcd, ih, hcd]
        simp
      · rw [if_neg hcd]
        have hne : c.1.toNat ≠ d.1.toNat := fun h => hcd (Letter.toNat_inj h)
        simp only [List.cons.injEq, hcd, false_and, iff_false]
        omega

/-! ## Paths -/

/-- `vfs_has_more_path_elements`. -/
def vfsHasMorePathElements (path : Str) : Bool := !path.isEmpty

/-- `vfs_get_next_path_element`: the name that it copies into the buffer and what remains of the
path, or an error code. -/
def vfsGetNextPathElement (path : Str) : Except Fault (Except ℤ (Str × Str)) := do
  require (path.head? ≠ some slash) .separator
  let name := path.takeWhile (· != slash)
  let p := path.dropWhile (· != slash)
  if name.length > vfsNamelenMax then
    pure (.error einval)
  else
    pure (.ok (name, p.dropWhile (· == slash)))

/-- The components of a path. -/
def components (path : Str) : List Str :=
  (path.splitOn slash).filter (· ≠ [])

variable {path : Str}

@[simp]
theorem components_nil : components [] = [] := rfl

theorem components_slash : components (slash :: path) = components path := by
  unfold components
  have hsplit : (slash :: path).splitOn slash = [] :: path.splitOn slash := by
    simp [List.splitOn_cons_eq_if_modifyHead]
  rw [hsplit]
  simp

/-- Separators in front of a path do not matter. -/
theorem components_dropWhile : components (path.dropWhile (· == slash)) = components path := by
  induction path with
  | nil => rfl
  | cons c path ih =>
    by_cases hc : c = slash
    · subst hc
      rw [List.dropWhile_cons_of_pos (by simp), ih, components_slash]
    · have hc' : ¬(c == slash) = true := fun h => hc (beq_iff_eq.mp h)
      rw [List.dropWhile_cons, if_neg hc']

/-- A path that goes on after its first component goes on with a separator. -/
theorem dropWhile_eq_nil_or_slash :
    path.dropWhile (· != slash) = [] ∨ ∃ rest, path.dropWhile (· != slash) = slash :: rest := by
  cases hrest : path.dropWhile (· != slash) with
  | nil => exact .inl rfl
  | cons c rest =>
    have hnot := List.head?_dropWhile_not (· != slash) path
    rw [hrest] at hnot
    have hc : c = slash := by simpa using hnot
    exact .inr ⟨rest, by rw [hc]⟩

/-- The first component of a path that does not begin with a separator, and the others. -/
theorem components_takeWhile (hne : path ≠ []) (hhead : path.head? ≠ some slash) :
    components path =
      path.takeWhile (· != slash) ::
        components ((path.dropWhile (· != slash)).dropWhile (· == slash)) := by
  have hname : path.takeWhile (· != slash) ≠ [] := by
    cases path with
    | nil => exact absurd rfl hne
    | cons c path =>
      have hc : c ≠ slash := by simpa using hhead
      rw [List.takeWhile_cons_of_pos (by simpa using hc)]
      simp
  have hmem : slash ∉ path.takeWhile (· != slash) := by
    intro h
    simpa using List.mem_takeWhile_imp h
  have hpath : path.takeWhile (· != slash) ++ path.dropWhile (· != slash) = path :=
    List.takeWhile_append_dropWhile
  rw [components_dropWhile]
  rcases @dropWhile_eq_nil_or_slash path with hrest | ⟨rest, hrest⟩
  · have hsplit : path.splitOn slash = [path.takeWhile (· != slash)] := by
      rw [hrest, List.append_nil] at hpath
      rw [← List.splitOn_eq_singleton hmem, hpath]
    rw [hrest, components, hsplit]
    simp [hname]
  · have hsplit : path.splitOn slash = path.takeWhile (· != slash) :: rest.splitOn slash := by
      rw [← List.splitOn_append_cons_self_of_not_mem hmem, ← hrest, hpath]
    rw [hrest, components_slash, components, hsplit]
    simp [hname, components]

/-- One call of `vfs_get_next_path_element` takes the first component off, if it is not too
long, and comes to a path that does not begin with a separator. -/
theorem vfsGetNextPathElement_ok (hne : path ≠ []) (hhead : path.head? ≠ some slash) :
    (∃ name ∈ components path, vfsNamelenMax < name.length ∧
      vfsGetNextPathElement path = .ok (.error einval)) ∨
    ∃ name rest, vfsGetNextPathElement path = .ok (.ok (name, rest)) ∧
      components path = name :: components rest ∧ name.length ≤ vfsNamelenMax ∧
        rest.head? ≠ some slash := by
  have hcomp := components_takeWhile hne hhead
  have hreq : require (path.head? ≠ some slash) Fault.separator = .ok () := require_eq_ok.mpr hhead
  by_cases hlen : (path.takeWhile (· != slash)).length > vfsNamelenMax
  · refine .inl ⟨_, by rw [hcomp]; exact List.mem_cons_self, hlen, ?_⟩
    rw [vfsGetNextPathElement, hreq, ok_bind]
    simp only [if_pos hlen]
    rfl
  · refine .inr ⟨_, (path.dropWhile (· != slash)).dropWhile (· == slash), ?_, hcomp,
      Nat.le_of_not_lt hlen, fun h => ?_⟩
    · rw [vfsGetNextPathElement, hreq, ok_bind]
      simp only [if_neg hlen]
      rfl
    · have hnot := List.head?_dropWhile_not (· == slash) (path.dropWhile (· != slash))
      rw [h] at hnot
      simp at hnot

end GeekOS.Vfs
