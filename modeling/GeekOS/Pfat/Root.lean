import GeekOS.Library.Execution
import GeekOS.Library.ObjectHeap
import GeekOS.Library.Threads
import GeekOS.Pfat.Super
import GeekOS.Vfs.State

/-!
# The root directory of a PFAT filesystem

`pfat_get_root` and `pfat_get_inode` of `pfat.c`, called by any threads. A call looks, under the
mutex of the instance, for the inode of the root directory in `root_dir`, and creates one if there is
none. Nothing is ever stored to `root_dir`.

* `Inv`: every call creates an inode of its own, with one reference;
* `sharesRoot_iff`: the calls share their inode if there has been one call.

The last fields of `RootState` are history. No function of the kernel reads them.
-/

namespace GeekOS.Pfat

open Result Threads TransitionSystem
open Blockdev (U32)
open Vfs (InodeId InodeType Str)

/-- `struct inode`, with the `struct pfat_inode` behind its `p`. -/
structure Inode where
  parent : Option InodeId
  type : InodeType
  name : Option Str
  fatIndex : U32
  refcount : ℤ
  deriving DecidableEq

/-- Where a thread is. -/
inductive RootPc
  | idle
  /-- At the `mutex_lock` of `pfat_get_root`. -/
  | lock
  /-- Behind it. -/
  | getRoot
  /-- At the `mutex_unlock`, with what has been stored to `*p_dir`. -/
  | unlock (dir : InodeId)
  deriving DecidableEq, Repr

/-- An instance with the inodes of its filesystem, and the threads `T`. -/
structure RootState (T : Type) where
  inodes : ObjectHeap Inode
  super : PfatSuperblock
  rootDir : Option InodeId
  lock : Option T
  pc : T → RootPc
  /-- History: the inodes that have been created for the root directory. -/
  created : List InodeId
  /-- History: what the calls have returned, the last one first. -/
  returned : List (T × InodeId)

/-- What can happen next. -/
inductive RootEvent (T : Type)
  /-- A thread calls `pfat_get_root`. -/
  | getRoot (t : T)
  /-- It goes through its next section. -/
  | resume (t : T)
  deriving DecidableEq, Repr

/-- `vfs_inode_create`: `*p_inode` and the inodes. -/
def vfsInodeCreate (parent : Option InodeId) (type : InodeType) (name : Option Str) (fatIndex : U32)
    (inodes : ObjectHeap Inode) : InodeId × ObjectHeap Inode :=
  (inodes.next, inodes.alloc { parent, type, name, fatIndex, refcount := 0 })

/-- Add a reference. -/
def Inode.addRef (inode : Inode) : Inode := { inode with refcount := inode.refcount + 1 }

/-- The reference count of an inode. -/
def inodeRefcount (inodes : ObjectHeap Inode) (dir : InodeId) : ℤ :=
  ((inodes.obj dir).map Inode.refcount).getD 0

/-- `pfat_get_inode`: `*p_inode` and the inodes. -/
def pfatGetInode (fatIndex : U32) (parent : Option InodeId) (type : InodeType) (name : Option Str)
    (inodes : ObjectHeap Inode) : Except Vfs.Fault (InodeId × ObjectHeap Inode) := do
  let (inode, inodes) := vfsInodeCreate parent type name fatIndex inodes
  -- success! add the initial reference
  let inodes := inodes.modify inode Inode.addRef
  require (inodeRefcount inodes inode = 1) .refcount
  pure (inode, inodes)

variable {T : Type} [DecidableEq T]

namespace RootState

variable (s : RootState T)

/-- Move a thread. -/
def goto (t : T) (p : RootPc) : RootState T := { s with pc := Function.update s.pc t p }

/-- What `pfat_get_root` does under the mutex. -/
def pfatGetRoot (t : T) : Except Vfs.Fault (RootState T) :=
  match s.rootDir with
  | none => do
      let (dir, inodes) ← pfatGetInode s.super.rootDirFatIndex none .dir none s.inodes
      require (0 < inodeRefcount inodes dir) .refcount
      pure { s.goto t (.unlock dir) with inodes, created := dir :: s.created }
  | some dir => do
      let inodes := s.inodes.modify dir Inode.addRef
      require (0 < inodeRefcount inodes dir) .refcount
      pure { s.goto t (.unlock dir) with inodes }

/-- A thread goes through its next section. -/
def resume (t : T) : Except Vfs.Fault (RootState T) :=
  match s.pc t with
  | .idle => pure s
  | .lock => do
      let owner ← Threads.lock .mutexHeld t s.lock
      pure { s.goto t .getRoot with lock := owner }
  | .getRoot => s.pfatGetRoot t
  | .unlock dir => do
      let owner ← Threads.unlock .mutexNotHeld t s.lock
      pure { s.goto t .idle with lock := owner, returned := (t, dir) :: s.returned }

/-- Carry out an event. -/
def exec : RootEvent T → Except Vfs.Fault (RootState T)
  | .getRoot t => pure (s.goto t .lock)
  | .resume t => s.resume t

/-- The event can come now. -/
def Enabled : RootEvent T → Prop
  | .getRoot t => s.pc t = .idle
  | .resume t => s.pc t ≠ .idle ∧ (s.pc t = .lock → Ready t s.lock)

instance (e : RootEvent T) : Decidable (s.Enabled e) := by
  induction e using RootEvent.casesOn <;> unfold Enabled <;> infer_instance

/-- One step. -/
def Step : RootState T → RootEvent T → RootState T → Prop := stepOf Enabled exec

/-- A new instance, before the first call. -/
def initial (super : PfatSuperblock) (inodes : ObjectHeap Inode) : RootState T where
  inodes := inodes
  super := super
  rootDir := none
  lock := none
  pc _ := .idle
  created := []
  returned := []

/-- The calls that have returned have returned one inode, which is the only one that was created for
the root directory and has a reference for each of them. -/
def SharesRoot : Prop :=
  ∃ dir, s.created = [dir] ∧ (∀ r ∈ s.returned, r.2 = dir) ∧
    inodeRefcount s.inodes dir = s.returned.length

/-- The thread has the mutex. -/
def Inside (p : RootPc) : Prop := p = .getRoot ∨ ∃ dir, p = .unlock dir

/-- The inode of a call that is about to return. -/
def pending : List InodeId :=
  match s.lock.map s.pc with
  | some (.unlock dir) => [dir]
  | _ => []

/-- No call has found an inode in `root_dir`: each of them has created its own. -/
structure Inv : Prop where
  rootDir : s.rootDir = none
  owner : ∀ t, Inside (s.pc t) ↔ s.lock = some t
  created : s.created = s.pending ++ s.returned.map Prod.snd
  refcount : ∀ dir ∈ s.created, dir < s.inodes.next ∧ inodeRefcount s.inodes dir = 1

variable {s} {s' : RootState T} {e : RootEvent T} {t u : T} {p : RootPc}

omit [DecidableEq T] in
theorem Inv.not_inside (h : s.Inv) (hpc : ¬Inside (s.pc t)) : s.lock ≠ some t :=
  fun hlock => hpc ((h.owner t).mpr hlock)

theorem goto_pc_self : (s.goto t p).pc t = p := Function.update_self ..

theorem goto_pc_of_ne (hu : u ≠ t) : (s.goto t p).pc u = s.pc u := Function.update_of_ne hu ..

/-- A thread outside of the mutex moves. -/
theorem Inv.goto (h : s.Inv) (hpc : ¬Inside (s.pc t)) (hp : ¬Inside p) : (s.goto t p).Inv where
  rootDir := h.rootDir
  owner u := by
    rcases eq_or_ne u t with rfl | hu
    · rw [goto_pc_self]
      exact iff_of_false hp (h.not_inside hpc)
    · rw [goto_pc_of_ne hu]
      exact h.owner u
  created := by
    -- the pending inode is that of the thread that has the mutex, which is another one
    have hpending : (s.goto t p).pending = s.pending := by
      unfold pending
      cases hlock : s.lock with
      | none =>
        have hgoto : (s.goto t p).lock = none := hlock
        rw [hgoto]
        rfl
      | some u =>
        have hgoto : (s.goto t p).lock = some u := hlock
        have hu : u ≠ t := by
          rintro rfl
          exact h.not_inside hpc hlock
        rw [hgoto, Option.map_some, Option.map_some, goto_pc_of_ne hu]
    rw [hpending]
    exact h.created
  refcount := h.refcount

/-- It takes the mutex. -/
theorem Inv.lock (h : s.Inv) (hlock : s.lock = none) :
    Inv { s.goto t .getRoot with lock := some t } where
  rootDir := h.rootDir
  owner u := by
    rcases eq_or_ne u t with rfl | hu
    · exact iff_of_true (.inl goto_pc_self) rfl
    · refine iff_of_false (fun hin => ?_) fun heq => hu (Option.some.inj heq).symm
      have hin' : Inside (s.pc u) := by rwa [← goto_pc_of_ne hu]
      rw [h.owner u, hlock] at hin'
      cases hin'
  created := by
    have hpending : s.pending = [] := by rw [pending, hlock]; rfl
    have hpending' : pending { s.goto t .getRoot with lock := some t } = [] := by
      unfold pending
      rw [Option.map_some, goto_pc_self]
    rw [hpending', ← hpending]
    exact h.created
  refcount := h.refcount

/-- The inodes with a new root directory, which has a reference. -/
def newRoot (super : PfatSuperblock) (inodes : ObjectHeap Inode) : ObjectHeap Inode :=
  (vfsInodeCreate none .dir none super.rootDirFatIndex inodes).2.modify inodes.next Inode.addRef

theorem inodeRefcount_newRoot {super : PfatSuperblock} {inodes : ObjectHeap Inode} :
    inodeRefcount (newRoot super inodes) inodes.next = 1 := by
  rw [inodeRefcount, newRoot, ObjectHeap.modify_obj_self, vfsInodeCreate, ObjectHeap.alloc_obj_self]
  rfl

/-- The other inodes keep their references. -/
theorem inodeRefcount_newRoot_of_lt {super : PfatSuperblock} {inodes : ObjectHeap Inode}
    {dir : InodeId} (hlt : dir < inodes.next) :
    inodeRefcount (newRoot super inodes) dir = inodeRefcount inodes dir := by
  rw [inodeRefcount, newRoot, ObjectHeap.modify_obj_of_ne (Nat.ne_of_lt hlt), vfsInodeCreate,
    ObjectHeap.alloc_obj_of_lt hlt, inodeRefcount]

/-- Where there is no inode in `root_dir`, one is created. -/
theorem pfatGetRoot_of_none (hroot : s.rootDir = none) :
    s.pfatGetRoot t = .ok { s.goto t (.unlock s.inodes.next) with
      inodes := newRoot s.super s.inodes
      created := s.inodes.next :: s.created } := by
  have hone := @inodeRefcount_newRoot s.super s.inodes
  have hget : pfatGetInode s.super.rootDirFatIndex none .dir none s.inodes =
      .ok (s.inodes.next, newRoot s.super s.inodes) := by
    rw [pfatGetInode]
    exact bind_eq_ok.mpr ⟨(), require_eq_ok.mpr hone, rfl⟩
  rw [RootState.pfatGetRoot, hroot]
  refine bind_eq_ok.mpr ⟨_, hget, bind_eq_ok.mpr ⟨(), require_eq_ok.mpr ?_, rfl⟩⟩
  rw [hone]
  decide

/-- The first call, and every other one, finds no inode in `root_dir`. -/
theorem Inv.pfatGetRoot (h : s.Inv) (hpc : s.pc t = .getRoot) (hs : s.pfatGetRoot t = .ok s') :
    s'.Inv := by
  rw [pfatGetRoot_of_none h.rootDir] at hs
  obtain rfl := Except.ok.inj hs
  have hlock : s.lock = some t := (h.owner t).mp (.inl hpc)
  have howner : ∀ u, Inside ((s.goto t (.unlock s.inodes.next)).pc u) ↔ s.lock = some u := by
    intro u
    rcases eq_or_ne u t with rfl | hu
    · exact iff_of_true (.inr ⟨_, goto_pc_self⟩) hlock
    · rw [goto_pc_of_ne hu]
      exact h.owner u
  -- the thread that has the mutex is not about to return
  have hcreated : s.created = s.returned.map Prod.snd := by
    rw [h.created, pending, hlock, Option.map_some, hpc, List.nil_append]
  refine ⟨h.rootDir, howner, ?_, fun dir hdir => ?_⟩
  · have hpc' : s.lock.map (s.goto t (.unlock s.inodes.next)).pc = some (.unlock s.inodes.next) := by
      rw [hlock, Option.map_some, goto_pc_self]
    unfold pending
    dsimp only
    rw [show (s.goto t (.unlock s.inodes.next)).lock = s.lock from rfl, hpc', hcreated]
    rfl
  · rcases List.mem_cons.mp hdir with rfl | hdir
    · exact ⟨Nat.lt_succ_self _, inodeRefcount_newRoot⟩
    · obtain ⟨hlt, hcount⟩ := h.refcount dir hdir
      exact ⟨Nat.lt_succ_of_lt hlt, (inodeRefcount_newRoot_of_lt hlt).trans hcount⟩

/-- The thread that has the mutex returns. -/
theorem Inv.unlock {dir : InodeId} (h : s.Inv) (hpc : s.pc t = .unlock dir) :
    Inv { s.goto t .idle with lock := none, returned := (t, dir) :: s.returned } := by
  have hlock : s.lock = some t := (h.owner t).mp (.inr ⟨dir, hpc⟩)
  refine ⟨h.rootDir, fun u => ?_, ?_, h.refcount⟩
  · refine iff_of_false (fun hin => ?_) (by simp)
    rcases eq_or_ne u t with rfl | hu
    · rw [show (s.goto u .idle).pc u = .idle from goto_pc_self] at hin
      rcases hin with hin | ⟨dir, hin⟩ <;> cases hin
    · have hin' : Inside (s.pc u) := by rwa [← goto_pc_of_ne hu]
      rw [h.owner u, hlock] at hin'
      exact hu (Option.some.inj hin').symm
  · have hpending : s.pending = [dir] := by rw [pending, hlock, Option.map_some, hpc]
    have hcreated := h.created
    rw [hpending] at hcreated
    exact hcreated

/-- Every step keeps the invariant. -/
theorem Inv.step (h : s.Inv) (hs : Step s e s') : s'.Inv := by
  obtain ⟨hen, hexec⟩ := hs
  cases e with
  | getRoot t =>
    obtain rfl := Except.ok.inj hexec
    have hidle : s.pc t = .idle := hen
    refine h.goto ?_ (by simp [Inside])
    rw [hidle]
    simp [Inside]
  | resume t =>
    rw [exec, resume] at hexec
    split at hexec
    next hpc => exact absurd hpc hen.1
    next hpc =>
      obtain ⟨owner, hlock, hexec⟩ := bind_eq_ok.mp hexec
      obtain ⟨hne, rfl⟩ := lock_eq_ok.mp hlock
      obtain rfl := Except.ok.inj hexec
      exact h.lock ((hen.2 hpc).resolve_right hne)
    next hpc => exact h.pfatGetRoot hpc hexec
    next dir hpc =>
      obtain ⟨owner, hunlock, hexec⟩ := bind_eq_ok.mp hexec
      obtain ⟨-, rfl⟩ := unlock_eq_ok.mp hunlock
      obtain rfl := Except.ok.inj hexec
      exact h.unlock hpc

theorem inv_of_reachable {super : PfatSuperblock} {inodes : ObjectHeap Inode}
    (h : Reachable Step (initial super inodes) s) : s.Inv := by
  refine h.invariant ⟨rfl, fun t => ?_, rfl, fun dir hdir => ?_⟩ fun _ _ _ hI hs => hI.step hs
  · exact iff_of_false (by simp [initial, Inside]) (by simp [initial])
  · cases hdir

/-- When all calls have returned, they share their inode if and only if there has been one call. -/
theorem sharesRoot_iff {super : PfatSuperblock} {inodes : ObjectHeap Inode}
    (h : Reachable Step (initial super inodes) s) (hidle : ∀ t, s.pc t = .idle) :
    s.SharesRoot ↔ s.returned.length = 1 := by
  have hinv := inv_of_reachable h
  -- nobody has the mutex, so that no inode is pending
  have hlock : s.lock = none := by
    rw [Option.eq_none_iff_forall_not_mem]
    intro t ht
    have hin := (hinv.owner t).mpr ht
    rw [hidle t] at hin
    rcases hin with hin | ⟨dir, hin⟩ <;> cases hin
  have hcreated : s.created = s.returned.map Prod.snd := by
    rw [hinv.created, pending, hlock]
    rfl
  constructor
  · rintro ⟨dir, hdir, -⟩
    -- each call has created one inode
    rw [← List.length_map (f := Prod.snd), ← hcreated, hdir]
    rfl
  · intro hone
    obtain ⟨⟨t, dir⟩, hr⟩ := List.length_eq_one_iff.mp hone
    have hdir : s.created = [dir] := by rw [hcreated, hr]; rfl
    refine ⟨dir, hdir, fun r hmem => ?_, ?_⟩
    · rw [hr, List.mem_singleton] at hmem
      rw [hmem]
    · rw [(hinv.refcount dir (by rw [hdir]; exact List.mem_singleton_self _)).2, hone]
      rfl

/-! ## Runs -/

/-- A call, from its beginning to its end. -/
def oneCall (t : Bool) : List (RootEvent Bool) := [.getRoot t, .resume t, .resume t, .resume t]

/-- Where the calls of these threads lead, one after the other. -/
def afterCalls (threads : List Bool) : RootState Bool :=
  after Enabled exec (initial ⟨pfatMagic, 1, 1, 2, 512, 0⟩ .empty) (threads.flatMap oneCall)

theorem sharesRoot_iff_one :
    (afterCalls [false]).SharesRoot ↔ (afterCalls [false]).returned.length = 1 :=
  sharesRoot_iff (reachable_after (by decide)) (by decide)

/-- With two calls there are two root directories. -/
theorem not_sharesRoot_two :
    (afterCalls [false, true]).created = [1, 0] ∧
      (afterCalls [false, true]).returned = [(true, 1), (false, 0)] ∧
      ¬∀ s : RootState Bool, Reachable Step (initial ⟨pfatMagic, 1, 1, 2, 512, 0⟩ .empty) s →
        (∀ t, s.pc t = .idle) → 1 ≤ s.returned.length → s.SharesRoot := by
  refine ⟨by decide, by decide, fun h => ?_⟩
  obtain ⟨dir, hdir, -⟩ := h (afterCalls [false, true]) (reachable_after (by decide)) (by decide)
    (by decide)
  have hone : (afterCalls [false, true]).created.length = 1 := by
    rw [hdir]
    rfl
  exact absurd hone (by decide)

end RootState

end GeekOS.Pfat
