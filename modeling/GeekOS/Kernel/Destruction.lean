import Mathlib.Algebra.Order.BigOperators.Group.Finset
import Mathlib.Algebra.BigOperators.Group.List.Basic
import GeekOS.Kernel.Faults
import GeekOS.Kernel.References

/-!
# The destruction of threads

`thread_detach` schedules the destruction of a thread with its last reference, and the workqueue
thread carries it out. In between it is a pending act of the thread that schedules it, an item of
the work queue, or a pending act of the workqueue thread, and in one place only: for each object of
a thread, what is pending and what has been given back add up to what was scheduled
(`Conserved`). It is carried out on exited threads only (`DestroyControl`).
-/

namespace GeekOS

open Result TransitionSystem

/-! ## Each object is given back once -/

/-- How often the item gives the object back. -/
def WorkItem.willFree (o : Object) : WorkItem → ℕ
  | .threadDestroy t => if o.owner = t then 1 else 0
  | .ramdiskHandleRequest _ => 0

/-- How often the act, with those that follow it, gives the object back. -/
def Act.willFree (o : Object) : Act → ℕ
  | .work (.schedule item _ _) | .work (.link item _) => item.willFree o
  | .work (.destroyProcess t) => if o.owner = t then 1 else 0
  | .work (.destroyStack t) => if o = .stack t ∨ o = .thread t then 1 else 0
  | .work (.destroyThread t) => if o = .thread t then 1 else 0
  | _ => 0

/-- How often the acts give the object back. -/
def pendingFrees (o : Object) (acts : List Act) : ℕ := (acts.map (Act.willFree o)).sum

/-- How often the object has been given back, or will be by the items of the work queue. -/
def Ledger.frees (L : Ledger) (o : Object) : ℕ :=
  (L.workqueue.map (WorkItem.willFree o)).sum + L.freed.count o

theorem Ledger.frees_cons (L : Ledger) (o o' : Object) :
    ({ L with freed := o' :: L.freed } : Ledger).frees o = L.frees o + if o = o' then 1 else 0 := by
  by_cases ho : o = o'
  · subst ho
    simp only [Ledger.frees, List.count_cons_self, if_true]
    omega
  · simp [Ledger.frees, List.count_cons_of_ne (Ne.symm ho), ho]

@[simp]
theorem pendingFrees_nil (o : Object) : pendingFrees o [] = 0 := rfl

@[simp]
theorem pendingFrees_cons (o : Object) (a : Act) (acts : List Act) :
    pendingFrees o (a :: acts) = a.willFree o + pendingFrees o acts := by
  simp [pendingFrees]

@[simp]
theorem pendingFrees_append (o : Object) (l l' : List Act) :
    pendingFrees o (l ++ l') = pendingFrees o l + pendingFrees o l' := by
  simp [pendingFrees]

theorem pendingFrees_eq_zero {o : Object} {acts : List Act} (h : ∀ a ∈ acts, a.willFree o = 0) :
    pendingFrees o acts = 0 := by
  induction acts with
  | nil => rfl
  | cons a acts ih =>
    rw [pendingFrees_cons, h a List.mem_cons_self, ih fun b hb => h b (List.mem_cons_of_mem _ hb)]

theorem willFree_le_pendingFrees {o : Object} {a : Act} {acts : List Act} (h : a ∈ acts) :
    a.willFree o ≤ pendingFrees o acts := by
  obtain ⟨l₁, l₂, rfl⟩ := List.append_of_mem h
  simp only [pendingFrees_append, pendingFrees_cons]
  omega

/-- The objects of a thread. -/
theorem Object.owner_eq_iff {o : Object} {t : ThreadId} :
    o.owner = t ↔ o = .process t ∨ o = .stack t ∨ o = .thread t := by
  cases o <;> simp [owner]

theorem pendingFrees_destroyActs (o : Object) (t : ThreadId) (l : Life) :
    pendingFrees o (l.destroyActs t) = if l.refcount = 1 ∧ o.owner = t then 1 else 0 := by
  by_cases hone : l.refcount = 1 <;> simp [Life.destroyActs, hone, Act.willFree, WorkItem.willFree]

theorem count_scheduled_detach (L : Ledger) (t u : ThreadId) (l : Life) :
    (L.detach t l).scheduled.count u =
      L.scheduled.count u + if l.refcount = 1 ∧ u = t then 1 else 0 := by
  by_cases hone : l.refcount = 1
  · by_cases hu : u = t
    · subst hu
      simp [Ledger.detach, hone]
    · have hu' : ¬t = u := fun he => hu he.symm
      simp [Ledger.detach, hone, hu, hu']
  · simp [Ledger.detach, hone]

/-- A thread destroys no thread by calling a function. -/
theorem Act.willFree_of_isCall {a : Act} (ha : a.isCall = true) (o : Object) : a.willFree o = 0 := by
  cases a with
  | work a =>
    cases a with
    | schedule item iflag slept =>
      cases item with
      | threadDestroy t => simp [isCall] at ha
      | ramdiskHandleRequest r => rfl
    | _ => simp [isCall] at ha
  | _ => rfl

/-- No identity is used twice. -/
theorem LedgerStep.nextThread_le {c : ThreadId} {L L' : Ledger} {a : Act} {acts : List Act}
    (hs : LedgerStep c L a acts L') : L.nextThread ≤ L'.nextThread := by
  cases hs with
  | create | createFromJob | longTermScheduler => exact Nat.le_succ _
  | _ => exact le_rfl

/-- An act that leaves the ledger alone hands on what it was to give back. -/
theorem pendingFrees_of_quiet {k : Kernel} {a : Act} {acts : List Act}
    (ha : a.changesLedger = false) (hfollows : a.Follows k acts) (o : Object) :
    pendingFrees o acts = a.willFree o := by
  by_cases hschedule : ∃ item iflag slept, a = .work (.schedule item iflag slept)
  · obtain ⟨item, iflag, slept, rfl⟩ := hschedule
    rcases hfollows with rfl | rfl <;> simp [Act.willFree]
  · -- the other acts that leave the ledger alone give nothing back
    have hzero : a.willFree o = 0 := by
      unfold Act.willFree
      split <;> simp_all [Act.changesLedger]
    rw [hzero]
    apply pendingFrees_eq_zero
    intro b hb
    cases hfollows.leadsTo hb <;> simp_all [Act.willFree, Act.changesLedger]

/-- An act hands on what it was to give back: to the acts that follow, to the work queue or to
the allocator. -/
theorem LedgerStep.frees {k : Kernel} {c : ThreadId} {L L' : Ledger} {a : Act} {acts : List Act}
    (hs : LedgerStep c L a acts L') (hfollows : a.Follows k acts) (o : Object) :
    pendingFrees o acts + L'.frees o + L.scheduled.count o.owner =
      a.willFree o + L.frees o + L'.scheduled.count o.owner := by
  -- a reference that is dropped schedules a destruction if it is the last one
  have hdestroy : ∀ t l joined exitArg, pendingFrees o (l.destroyActs t) +
      { L.detach t l with joined, exitArg }.frees o + L.scheduled.count o.owner =
        L.frees o + (L.detach t l).scheduled.count o.owner := by
    intro t l joined exitArg
    rw [pendingFrees_destroyActs, count_scheduled_detach]
    change _ + L.frees o + _ = _
    omega
  cases hs with
  | quiet ha => rw [pendingFrees_of_quiet ha hfollows]
  | again hb =>
    unfold Act.again at hb
    split at hb <;> simp_all [Act.willFree] <;> subst hb <;> simp
  | create | createFromJob | longTermScheduler => simp [Act.willFree, Ledger.spawn, Ledger.frees]
  | exit hl hpos => simpa [Act.willFree] using hdestroy c _ (L.detach c _).joined _
  | exitFinish | joinReturn => simp [Act.willFree, Ledger.frees]
  | threadJoin | waitForChildren => simpa [Act.willFree] using hdestroy _ _ _ (L.detach _ _).exitArg
  | link =>
    simp only [Ledger.frees, Act.willFree, List.map_append, List.sum_append, List.map_cons,
      List.map_nil, List.sum_cons, List.sum_nil, pendingFrees_nil]
    omega
  | @loop item rest slept hitem =>
    have hcallback : (Act.work item.callback).willFree o = item.willFree o := by
      cases item <;> rfl
    rw [pendingFrees_cons, hcallback]
    simp only [Ledger.frees, hitem, List.map_cons, List.sum_cons, pendingFrees_cons,
      pendingFrees_nil, Act.willFree]
    omega
  | @destroyProcess t | @destroyStack t | @destroyThread t =>
    rw [Ledger.frees_cons]
    by_cases ho : o.owner = t
    · simp only [Act.willFree, ho, pendingFrees_cons, pendingFrees_nil, if_true]
      rcases Object.owner_eq_iff.mp ho with rfl | rfl | rfl
      all_goals simp
      all_goals omega
    · obtain ⟨h₁, h₂, h₃⟩ := by simpa only [Object.owner_eq_iff, not_or] using ho
      simp [Act.willFree, ho, h₁, h₂, h₃]

namespace Machine

/-- What the acts of the threads below `n` will give back. -/
def pendingFrees (m : Machine) (o : Object) (n : ℕ) : ℕ :=
  ∑ u ∈ Finset.range n, GeekOS.pendingFrees o (m.acts u)

/-- For each object of a thread, what is pending and what has been given back add up to what
`thread_detach` has scheduled. No thread from `nextThread` on has anything pending. -/
def Conserved (m : Machine) : Prop :=
  ∀ o n, m.kernel.sched.nextThread ≤ n →
    m.pendingFrees o n + m.kernel.ledger.frees o = m.kernel.scheduled.count o.owner

variable {m m' : Machine} {o : Object} {n : ℕ}

/-- Only the acts of the current thread have changed. -/
theorem pendingFrees_step (hn : m.current < n) (hother : ∀ u ≠ m.current, m'.acts u = m.acts u) :
    m'.pendingFrees o n + GeekOS.pendingFrees o (m.acts m.current) =
      m.pendingFrees o n + GeekOS.pendingFrees o (m'.acts m.current) := by
  have hin : m.current ∈ Finset.range n := Finset.mem_range.mpr hn
  have hrest : ∑ u ∈ (Finset.range n).erase m.current, GeekOS.pendingFrees o (m'.acts u) =
      ∑ u ∈ (Finset.range n).erase m.current, GeekOS.pendingFrees o (m.acts u) := by
    apply Finset.sum_congr rfl
    intro u hu
    rw [hother u (Finset.ne_of_mem_erase hu)]
  have hsplit : ∀ m₁ : Machine, GeekOS.pendingFrees o (m₁.acts m.current) +
      ∑ u ∈ (Finset.range n).erase m.current, GeekOS.pendingFrees o (m₁.acts u) =
        m₁.pendingFrees o n :=
    fun m₁ => Finset.add_sum_erase _ (fun u => GeekOS.pendingFrees o (m₁.acts u)) hin
  rw [← hsplit m, ← hsplit m', hrest]
  omega

theorem current_lt (hr : Reachable Step boot m) : m.current < m.kernel.sched.nextThread := by
  by_contra hle
  have hp := reachable_placed hr
  obtain ⟨th, hth, -⟩ := hp.live m.current (.inl (List.mem_singleton_self _))
  simp [hp.fresh _ (not_lt.mp hle)] at hth

theorem nextThread_le {e : Event} (hr : Reachable Step boot m) (hs : m.Step e m') :
    m.kernel.sched.nextThread ≤ m'.kernel.sched.nextThread := by
  rcases hs.ledger hr with ⟨-, -, hL⟩ | ⟨a, -, -, -, -, hk⟩ | ⟨memory, a, rest, acts, -, -, -, -, hL⟩
  · exact (congrArg Ledger.nextThread hL).ge
  · rw [hk]
  · exact hL.nextThread_le

/-- Every step keeps the balance. -/
theorem Conserved.step {e : Event} (h : m.Conserved) (hr : Reachable Step boot m)
    (hs : m.Step e m') : m'.Conserved := by
  intro o n hn
  have hle := nextThread_le hr hs
  have hcur := current_lt hr
  have hold := h o n (hle.trans hn)
  rcases hs.ledger hr with ⟨-, hacts, hL⟩ | ⟨a, rfl, hnil, hcall, hacts', hk⟩ |
    ⟨memory, a, rest, acts, rfl, hacts, hk, hacts', hL⟩
  · have hsched : m'.kernel.scheduled = m.kernel.scheduled := congrArg Ledger.scheduled hL
    rwa [pendingFrees, hacts, hL, hsched]
  · have hsum := pendingFrees_step (o := o) (hcur.trans_le (hle.trans hn))
      fun u hu => exec_acts_of_ne hs.2 hu
    have hzero := Act.willFree_of_isCall hcall o
    rw [hnil, hacts', pendingFrees_nil, pendingFrees_cons, hzero, pendingFrees_nil] at hsum
    rw [hk]
    omega
  · have hsum := pendingFrees_step (o := o) (hcur.trans_le (hle.trans hn))
      fun u hu => exec_acts_of_ne hs.2 hu
    rw [hacts, hacts', pendingFrees_cons, pendingFrees_append] at hsum
    have hact := hL.frees (Act.run_follows hk) o
    change _ + _ = m'.kernel.ledger.scheduled.count o.owner
    change _ + _ = m.kernel.ledger.scheduled.count o.owner at hold
    omega

end Machine

theorem conserved_boot : boot.Conserved := by
  intro o n _
  have hpending : ∀ u, pendingFrees o (boot.acts u) = 0 := by
    intro u
    apply pendingFrees_eq_zero
    intro a ha
    rcases mem_boot_acts ha with rfl | rfl <;> rfl
  simp only [Machine.pendingFrees, hpending, Finset.sum_const_zero]
  rfl

section Reachable

variable {m : Machine} {o : Object} {t u : ThreadId} {a : Act}
variable (h : Reachable Machine.Step boot m)
include h

/-- What is pending and what has been given back add up to what was scheduled. -/
theorem reachable_conserved : m.Conserved := by
  have hI : Reachable Machine.Step boot m ∧ m.Conserved :=
    h.invariant (I := fun m => Reachable Machine.Step boot m ∧ m.Conserved)
      ⟨.refl _, conserved_boot⟩ fun _ _ _ hI hs => ⟨hI.1.tail hs, hI.2.step hI.1 hs⟩
  exact hI.2

/-- What was scheduled once is given back once: it is pending in one place, or given back. -/
theorem pendingFrees_add_frees_le (u : ThreadId) :
    pendingFrees o (m.acts u) + m.kernel.ledger.frees o ≤
      if o.owner ∈ m.kernel.scheduled then 1 else 0 := by
  have hsum := reachable_conserved h o (max m.kernel.sched.nextThread (u + 1)) (le_max_left ..)
  have hle : pendingFrees o (m.acts u) ≤
      m.pendingFrees o (max m.kernel.sched.nextThread (u + 1)) :=
    Finset.single_le_sum (f := fun u => pendingFrees o (m.acts u)) (fun _ _ => Nat.zero_le _)
      (Finset.mem_range.mpr (lt_max_of_lt_right (Nat.lt_succ_self u)))
  have hcount : m.kernel.scheduled.count o.owner ≤
      if o.owner ∈ m.kernel.scheduled then 1 else 0 := by
    split
    · exact List.nodup_iff_count_le_one.mp (reachable_balanced h).nodup _
    next hout => rw [List.count_eq_zero.mpr hout]
  omega

/-- An object whose return is pending has not been given back. -/
theorem not_mem_freed_of_willFree (ha : a ∈ m.acts u) (hpos : 0 < a.willFree o) :
    o ∉ m.kernel.sched.freed := by
  intro hin
  have hle := pendingFrees_add_frees_le (o := o) h u
  have hpending := willFree_le_pendingFrees (o := o) ha
  have hfreed : 0 < m.kernel.sched.freed.count o := List.count_pos_iff.mpr hin
  have hfrees : m.kernel.sched.freed.count o ≤ m.kernel.ledger.frees o := Nat.le_add_left ..
  split at hle <;> omega

/-- No object is given back twice. -/
theorem freed_nodup : m.kernel.sched.freed.Nodup := by
  rw [List.nodup_iff_count_le_one]
  intro o
  have hle := pendingFrees_add_frees_le (o := o) h 0
  have hfrees : m.kernel.sched.freed.count o ≤ m.kernel.ledger.frees o := Nat.le_add_left ..
  split at hle <;> omega

/-- What is given back belongs to a thread without holders. -/
theorem scheduled_of_mem_freed (hin : o ∈ m.kernel.sched.freed) :
    o.owner ∈ m.kernel.scheduled := by
  by_contra hout
  have hle := pendingFrees_add_frees_le (o := o) h 0
  rw [if_neg hout] at hle
  have hfreed : 0 < m.kernel.sched.freed.count o := List.count_pos_iff.mpr hin
  have hfrees : m.kernel.sched.freed.count o ≤ m.kernel.ledger.frees o := Nat.le_add_left ..
  omega

/-- A thread with a holder is allocated. -/
theorem objectAllocated_of_refcount {l : Life} (hl : m.kernel.sched.life o.owner = some l)
    (hpos : 0 < l.refcount) : m.kernel.sched.ObjectAllocated o := by
  obtain ⟨th, hth, -⟩ := threads_of_life hl
  refine ⟨⟨th, hth⟩, fun hin => ?_⟩
  obtain ⟨l', hl', hzero⟩ :=
    ((reachable_balanced h).scheduled o.owner).mp (scheduled_of_mem_freed h hin)
  obtain rfl := Option.some.inj (hl.symm.trans hl')
  omega

end Reachable

/-! ## Only exited threads are destroyed -/

/-- The record says that the thread has exited. -/
def Ledger.Exited (L : Ledger) (t : ThreadId) : Prop := ∃ l, L.life t = some l ∧ l.exited = true

/-- The act is part of `thread_destroy`. -/
def Act.Destroys (t : ThreadId) (a : Act) : Prop :=
  a = .work (.destroyProcess t) ∨ a = .work (.destroyStack t) ∨ a = .work (.destroyThread t)

/-- Where the destruction of a thread stands. A thread that schedules its own destruction has
not exited yet, but ends before another thread can run. -/
structure DestroyControl (m : Machine) : Prop where
  schedule : ∀ t u a, a.SchedulesDestroy t → a ∈ m.acts u →
    m.kernel.ledger.Exited t ∨ u = t ∧ ∃ code, .thread (.exitFinish code) ∈ m.acts t
  item : ∀ t, .threadDestroy t ∈ m.kernel.workqueue →
    m.kernel.ledger.Exited t ∨ t = m.current ∧ ∃ code, m.acts t = [.thread (.exitFinish code)]
  destroy : ∀ t u a, a.Destroys t → a ∈ m.acts u → m.kernel.ledger.Exited t
  freed : ∀ o ∈ m.kernel.sched.freed, m.kernel.ledger.Exited o.owner

namespace LedgerStep

variable {c t : ThreadId} {L L' : Ledger} {a b : Act} {acts : List Act}

theorem mem_workqueue {item : WorkItem} (hs : LedgerStep c L a acts L')
    (hin : item ∈ L'.workqueue) :
    item ∈ L.workqueue ∨ ∃ iflag, a = .work (.link item iflag) := by
  cases hs with
  | @link item' iflag =>
    rcases List.mem_append.mp hin with hin | hin
    · exact .inl hin
    · obtain rfl := List.mem_singleton.mp hin
      exact .inr ⟨iflag, rfl⟩
  | loop hitem => exact .inl (hitem ▸ List.mem_cons_of_mem _ hin)
  | _ => exact .inl hin

theorem mem_freed {o : Object} (hs : LedgerStep c L a acts L') (hin : o ∈ L'.freed) :
    o ∈ L.freed ∨ a.Destroys o.owner := by
  cases hs with
  | destroyProcess | destroyStack | destroyThread =>
    rcases List.mem_cons.mp hin with rfl | hin
    · exact .inr (by simp [Act.Destroys, Object.owner])
    · exact .inl hin
  | _ => exact .inl hin

/-- A parent that drops the last reference to a child has found it exited. -/
theorem exited_joinTest {child : ThreadId} {caller : JoinCaller}
    (hs : LedgerStep c L (.thread (.joinTest child caller)) acts L')
    (hb : b.SchedulesDestroy t) (hin : b ∈ acts) : L.Exited child := by
  cases hs with
  | quiet ha => simp [Act.changesLedger] at ha
  | again hb' =>
    obtain rfl := Option.some.inj hb'
    obtain rfl := List.mem_singleton.mp hin
    rcases hb with ⟨_, _, hb⟩ | ⟨_, hb⟩ <;> simp at hb
  | threadJoin hl hparent hexited | waitForChildren hl hparent hexited => exact ⟨_, hl, hexited⟩

end LedgerStep

namespace DestroyControl

variable {m m' : Machine} {e : Event}

/-- A step of the current thread keeps the control. -/
theorem resume_step {memory : Memory} {a : Act} {rest acts : List Act} (h : DestroyControl m)
    (hr : Reachable Machine.Step boot m) (hs : m.Step (.resume memory) m')
    (hacts : m.acts m.current = a :: rest) (hk : a.run memory m.kernel = .ok (acts, m'.kernel))
    (hacts' : m'.acts m.current = acts ++ rest)
    (hL : LedgerStep m.current m.kernel.ledger a acts m'.kernel.ledger) : DestroyControl m' := by
  have hfollows := Act.run_follows hk
  have hexit := reachable_exitControl hr
  have hkeep : ∀ {t}, m.kernel.ledger.Exited t → m'.kernel.ledger.Exited t :=
    hL.exited ((reachable_balanced hr).fresh _ le_rfl)
  have hin : a ∈ m.acts m.current := hacts ▸ List.mem_cons_self
  have hother : ∀ u, u ≠ m.current → m'.acts u = m.acts u :=
    fun u hu => Machine.exec_acts_of_ne hs.2 hu
  constructor
  · intro t u b hb hbin
    by_cases hu : u = m.current
    · subst hu
      -- the thread is about to end, or has just ended
      have hrest : m.kernel.ledger.Exited t ∨
          m.current = t ∧ (∃ code, .thread (.exitFinish code) ∈ m.acts t) →
          m'.kernel.ledger.Exited t ∨
            m.current = t ∧ ∃ code, .thread (.exitFinish code) ∈ m'.acts t := by
        rintro (hold | ⟨rfl, code, hcode⟩)
        · exact .inl (hkeep hold)
        · rw [hacts] at hcode
          rcases List.mem_cons.mp hcode with rfl | hcode
          · exact .inl hL.exited_exitFinish
          · exact .inr ⟨rfl, code, by rw [hacts']; exact List.mem_append_right _ hcode⟩
      rw [hacts'] at hbin
      rcases List.mem_append.mp hbin with hbin | hbin
      · have hlead := hfollows.leadsTo hbin
        rcases hb with ⟨iflag, slept, rfl⟩ | ⟨iflag, rfl⟩
        · cases hlead with
          | @exitSchedule code =>
            refine .inr ⟨rfl, code, ?_⟩
            rw [hacts']
            rcases hfollows with rfl | rfl <;> simp
          | joinSchedule =>
            exact .inl (hkeep (hL.exited_joinTest (.inl ⟨false, false, rfl⟩) hbin))
          | scheduleAgain => exact hrest (h.schedule t _ _ (.inl ⟨iflag, _, rfl⟩) hin)
        · cases hlead with
          | link => exact hrest (h.schedule t _ _ (.inl ⟨iflag, _, rfl⟩) hin)
      · exact hrest (h.schedule t _ b hb (hacts ▸ List.mem_cons_of_mem _ hbin))
    · rw [hother u hu] at hbin
      rcases h.schedule t u b hb hbin with hold | ⟨rfl, code, hcode⟩
      · exact .inl (hkeep hold)
      · exact .inr ⟨rfl, code, by rwa [hother u hu]⟩
  · intro t hitem
    rcases hL.mem_workqueue hitem with hitem | ⟨iflag, rfl⟩
    · rcases h.item t hitem with hold | ⟨rfl, code, hone⟩
      · exact .inl (hkeep hold)
      · -- the current thread ends before anything else happens
        obtain ⟨rfl, -⟩ := List.cons.inj (hacts.symm.trans hone)
        exact .inl hL.exited_exitFinish
    · rcases h.schedule t _ _ (.inr ⟨iflag, rfl⟩) hin with hold | ⟨rfl, code, hcode⟩
      · exact .inl (hkeep hold)
      · rw [hacts] at hcode
        have hcode := (List.mem_cons.mp hcode).resolve_left (by simp)
        obtain ⟨rfl, -⟩ := hexit.leaves_of_rest hacts hcode
        obtain rfl : acts = [] := hfollows
        exact .inr ⟨(ExitControl.current_eq hs hacts (.inr ⟨_, iflag, rfl⟩)).symm, code, hacts'⟩
  · intro t u b hb hbin
    by_cases hu : u = m.current
    · subst hu
      rw [hacts'] at hbin
      rcases List.mem_append.mp hbin with hbin | hbin
      · have hlead := hfollows.leadsTo hbin
        rcases hb with rfl | rfl | rfl
        · cases hlead with
          | destroyProcess hitem =>
            rcases h.item t hitem with hold | ⟨rfl, code, hone⟩
            · exact hkeep hold
            · simp [hacts] at hone
        · cases hlead with
          | destroyStack => exact hkeep (h.destroy t _ _ (.inl rfl) hin)
        · cases hlead with
          | destroyThread => exact hkeep (h.destroy t _ _ (.inr (.inl rfl)) hin)
      · exact hkeep (h.destroy t _ b hb (hacts ▸ List.mem_cons_of_mem _ hbin))
    · rw [hother u hu] at hbin
      exact hkeep (h.destroy t u b hb hbin)
  · intro o ho
    rcases hL.mem_freed ho with ho | ha
    · exact hkeep (h.freed o ho)
    · exact hkeep (h.destroy _ _ a ha hin)

/-- Every step keeps the control. -/
theorem step (h : DestroyControl m) (hr : Reachable Machine.Step boot m) (hs : m.Step e m') :
    DestroyControl m' := by
  rcases hs.ledger hr with ⟨he, hacts, hL⟩ | ⟨a, rfl, hnil, hcall, hacts', hk⟩ |
    ⟨memory, a, rest, acts, rfl, hacts, hk, hacts', hL⟩
  · have hwork : m'.kernel.workqueue = m.kernel.workqueue := congrArg Ledger.workqueue hL
    have hfreed : m'.kernel.sched.freed = m.kernel.sched.freed := congrArg Ledger.freed hL
    refine ⟨?_, fun t hitem => .inl ?_, ?_, ?_⟩
    · rw [hacts, hL]
      exact h.schedule
    · rw [hwork] at hitem
      rw [hL]
      refine (h.item t hitem).resolve_right fun hfinish => ?_
      obtain ⟨hcur, code, hone⟩ := hfinish
      rw [hcur] at hone
      exact hs.acts_ne_exitFinish he hone
    · rw [hacts, hL]
      exact h.destroy
    · rw [hfreed, hL]
      exact h.freed
  · have hold : ∀ {u b}, b ∈ m'.acts u → (b.isCall = false) → b ∈ m.acts u := by
      intro u b hb hno
      by_cases hu : u = m.current
      · subst hu
        rw [hacts'] at hb
        obtain rfl := List.mem_singleton.mp hb
        simp [hcall] at hno
      · rwa [Machine.exec_acts_of_ne hs.2 hu] at hb
    have hnew : ∀ {u b}, b ∈ m.acts u → b ∈ m'.acts u := by
      intro u b hb
      have hu : u ≠ m.current := by
        rintro rfl
        simp [hnil] at hb
      rwa [Machine.exec_acts_of_ne hs.2 hu]
    refine ⟨fun t u b hb hbin => ?_, fun t hitem => ?_, fun t u b hb hbin => ?_, ?_⟩
    · have hno : b.isCall = false := by
        rcases hb with ⟨_, _, rfl⟩ | ⟨_, rfl⟩ <;> rfl
      rw [hk]
      refine (h.schedule t u b hb (hold hbin hno)).imp_right fun hfinish => ?_
      obtain ⟨hut, code, hcode⟩ := hfinish
      exact ⟨hut, code, hnew hcode⟩
    · rw [hk] at hitem ⊢
      refine (h.item t hitem).imp_right fun hfinish => ?_
      obtain ⟨hcur, code, hone⟩ := hfinish
      rw [hcur, hnil] at hone
      simp at hone
    · have hno : b.isCall = false := by
        rcases hb with rfl | rfl | rfl <;> rfl
      rw [hk]
      exact h.destroy t u b hb (hold hbin hno)
    · rw [hk]
      exact h.freed
  · exact h.resume_step hr hs hacts hk hacts' hL

end DestroyControl

theorem destroyControl_boot : DestroyControl boot := by
  refine ⟨fun t u a ha hin => ?_, fun t hitem => ?_, fun t u a ha hin => ?_, fun o ho => ?_⟩
  · rcases mem_boot_acts hin with rfl | rfl <;> rcases ha with ⟨_, _, ha⟩ | ⟨_, ha⟩ <;> simp at ha
  · simp [boot] at hitem
  · rcases mem_boot_acts hin with rfl | rfl <;> rcases ha with ha | ha | ha <;> simp at ha
  · have hnil : boot.kernel.sched.freed = [] := rfl
    simp [hnil] at ho

section Reachable

variable {m : Machine} {t : ThreadId} (h : Reachable Machine.Step boot m)
include h

theorem reachable_destroyControl : DestroyControl m := by
  have hI : Reachable Machine.Step boot m ∧ DestroyControl m :=
    h.invariant (I := fun m => Reachable Machine.Step boot m ∧ DestroyControl m)
      ⟨.refl _, destroyControl_boot⟩ fun _ _ _ hI hs => ⟨hI.1.tail hs, hI.2.step hI.1 hs⟩
  exact hI.2

/-- An exited thread is neither current nor in a queue. -/
theorem not_place_of_exited (hex : m.kernel.ledger.Exited t) :
    t ≠ m.current ∧ ∀ q, t ∉ m.kernel.sched.queue q := by
  obtain ⟨l, hl, hexited⟩ := hex
  obtain ⟨th, hth, rfl⟩ := threads_of_life hl
  have hexited : th.state = .exited := by simpa [Thread.life] using hexited
  have hp := reachable_placed h
  exact ⟨fun hc => hp.not_exited (.inl (List.mem_singleton.mpr hc)) hth hexited,
    fun q hq => hp.not_exited (.inr ⟨q, hq⟩) hth hexited⟩

/-- An object of the current thread or of a thread in a queue has not been given back. -/
theorem not_mem_freed_of_place {o : Object}
    (hplace : o.owner = m.current ∨ ∃ q, o.owner ∈ m.kernel.sched.queue q) :
    o ∉ m.kernel.sched.freed := by
  intro hin
  obtain ⟨hcur, hqueue⟩ := not_place_of_exited h ((reachable_destroyControl h).freed o hin)
  rcases hplace with hc | ⟨q, hq⟩
  · exact hcur hc
  · exact hqueue q hq

/-- The current thread and the threads in queues are allocated. -/
theorem reachable_not_dangling : ¬m.kernel.sched.Dangling := by
  rintro ⟨t, hplace, hno⟩
  apply hno
  obtain ⟨th, hth, -⟩ :=
    (reachable_placed h).live t (hplace.imp_left fun hc => List.mem_singleton.mpr hc)
  exact ⟨th, hth, not_mem_freed_of_place h hplace, not_mem_freed_of_place h hplace⟩

/-- Nor does the return of an object leave one of them without its memory. -/
theorem not_dangling_free {o : Object} (hex : m.kernel.ledger.Exited o.owner) :
    ¬(m.kernel.sched.free o).Dangling := by
  rintro ⟨t, hplace, hno⟩
  obtain ⟨hcur, hqueue⟩ := not_place_of_exited h hex
  have hne : ∀ {o'}, o'.owner = t → o' ≠ o := by
    rintro o' rfl rfl
    rcases hplace with hc | ⟨q, hq⟩
    · exact hcur hc
    · exact hqueue q hq
  apply hno
  obtain ⟨th, hth, -⟩ :=
    (reachable_placed h).live t (hplace.imp_left fun hc => List.mem_singleton.mpr hc)
  have hkeep : ∀ {o'}, o'.owner = t → o' ∉ (m.kernel.sched.free o).freed := by
    rintro o' rfl hin
    rcases List.mem_cons.mp hin with hin | hin
    · exact hne rfl hin
    · exact not_mem_freed_of_place h hplace hin
  exact ⟨th, hth, hkeep rfl, hkeep rfl⟩

end Reachable

end GeekOS
