import GeekOS.Kernel.Destruction
import GeekOS.Kernel.Sorted

/-!
# The life of a thread

The properties of `thread_exit`, `thread_join`, `wait_for_children` and `thread_destroy` together,
where each attached child is joined at most once and only by its parent (`Machine.JoinsOnce`).
All but one hold in every such run: `thread_create` makes a detached thread runnable before it
has stored the pid and the priority of its process, and the new thread may have exited and been
destroyed when `thread_create` comes to one of these stores.

* `JoinControl`: what a parent still has to join has not been joined;
* `lifecycle_iff_createFinishes`: the threads of a run are well kept exactly when no
  `thread_create` comes to such a store behind the destruction of its thread;
* `not_lifecycle_destroyedChild`: a run where one does.
-/

namespace GeekOS

open Result TransitionSystem

/-! ## What is still to be joined -/

/-- The children that the act, with those that follow it, joins. -/
def Act.joins : Act → List ThreadId
  | .thread (.join child _) | .thread (.joinTest child _) => [child]
  | .thread (.waitForChildren threads) => threads
  | .simulation (.longTermScheduler _ threads _) => threads
  | _ => []

/-- The children that the acts join. -/
def pendingJoins (acts : List Act) : List ThreadId := acts.flatMap Act.joins

@[simp]
theorem pendingJoins_nil : pendingJoins [] = [] := rfl

@[simp]
theorem pendingJoins_cons (a : Act) (acts : List Act) :
    pendingJoins (a :: acts) = a.joins ++ pendingJoins acts := rfl

@[simp]
theorem pendingJoins_append (l l' : List Act) :
    pendingJoins (l ++ l') = pendingJoins l ++ pendingJoins l' := List.flatMap_append ..

namespace Machine

variable (m : Machine)

/-- The current thread is the parent of the child and has not joined it. -/
def Joinable (child : ThreadId) : Prop :=
  (∃ th, m.kernel.sched.threads child = some th ∧ th.parent = some m.current) ∧
    child ∉ m.kernel.joined

/-- The event does not join a child twice, nor the child of another thread. -/
def JoinsOnce : Event → Prop
  | .call (.thread (.join child _)) => m.Joinable child
  | .call (.thread (.waitForChildren threads)) =>
      threads.Nodup ∧ ∀ child ∈ threads, m.Joinable child
  | _ => True

end Machine

/-- What a thread still has to join: each of its children once. -/
structure JoinControl (m : Machine) : Prop where
  nodup : ∀ u, (pendingJoins (m.acts u)).Nodup
  child : ∀ u child, child ∈ pendingJoins (m.acts u) →
    (∃ l, m.kernel.ledger.life child = some l ∧ l.parent = some u) ∧
      child ∉ m.kernel.ledger.joined

namespace LedgerStep

variable {k : Kernel} {c t : ThreadId} {L L' : Ledger} {a : Act} {acts : List Act}

/-- A thread keeps its parent. -/
theorem parent {l : Life} (hs : LedgerStep c L a acts L')
    (hfresh : L.life L.nextThread = none) (hl : L.life t = some l) :
    ∃ l', L'.life t = some l' ∧ l'.parent = l.parent := by
  -- the record of a new thread takes nobody's place
  have hspawn : ∀ new, (L.spawn new).life t = some l := by
    intro new
    have hne : t ≠ L.nextThread := by
      rintro rfl
      simp [hfresh] at hl
    exact (Function.update_of_ne hne ..).trans hl
  have hupdate : ∀ u l₀ l₁, L.life u = some l₀ → l₁.parent = l₀.parent →
      ∃ l', Function.update L.life u (some l₁) t = some l' ∧ l'.parent = l.parent := by
    intro u l₀ l₁ hl₀ hpar
    by_cases htu : t = u
    · subst htu
      obtain rfl := Option.some.inj (hl.symm.trans hl₀)
      exact ⟨l₁, Function.update_self .., hpar⟩
    · exact ⟨l, (Function.update_of_ne htu ..).trans hl, rfl⟩
  cases hs with
  | create | createFromJob | longTermScheduler => exact ⟨l, hspawn _, rfl⟩
  | exit hl₀ | threadJoin hl₀ | waitForChildren hl₀ | exitFinish hl₀ => exact hupdate _ _ _ hl₀ rfl
  | _ => exact ⟨l, hl, rfl⟩

theorem joins_destroyActs (l : Life) : pendingJoins (l.destroyActs t) = [] := by
  unfold Life.destroyActs
  split <;> rfl

/-- An act that leaves the ledger alone hands on what it was to join. -/
theorem joins_of_quiet (ha : a.changesLedger = false) (hfollows : a.Follows k acts) :
    pendingJoins acts = a.joins := by
  -- the three acts that have something to join without a change of the ledger
  by_cases hjoins : (∃ child caller, a = .thread (.join child caller)) ∨
      (∃ threads, a = .thread (.waitForChildren threads)) ∨
      ∃ joblist threads c, a = .simulation (.longTermScheduler joblist threads c)
  · rcases hjoins with ⟨child, caller, rfl⟩ | ⟨threads, rfl⟩ | ⟨joblist, threads, c, rfl⟩
    · obtain rfl : acts = _ := hfollows
      rfl
    · rcases hfollows with ⟨rfl, rfl⟩ | ⟨child, rest, rfl, rfl⟩ <;> simp [Act.joins]
    · rcases hfollows with ⟨rfl, rfl⟩ | ⟨job, rest, r, rfl, hgoes, rfl⟩
      · simp [Act.joins]
      · rcases hgoes.cases with ⟨c', rfl⟩ | ⟨rfl, pid, priority, rfl⟩
        · simp [Act.joins]
        · simp [Act.changesLedger] at ha
  · -- any other act joins nothing, and neither does what follows it
    have hnil : a.joins = [] := by
      unfold Act.joins
      split
      next => simp_all
      next => simp [Act.changesLedger] at ha
      next => simp_all
      next => simp_all
      next => rfl
    rw [hnil]
    apply List.flatMap_eq_nil_iff.mpr
    intro b hb
    cases hfollows.leadsTo hb <;> simp_all [Act.joins, Act.changesLedger]

/-- What becomes of the children an act was to join: they are handed on, with the new thread of
`long_term_scheduler`, or the one child has been joined. -/
theorem joins (hs : LedgerStep c L a acts L') (hfollows : a.Follows k acts) :
    (pendingJoins acts = a.joins ∧ L'.joined = L.joined) ∨
    (pendingJoins acts = a.joins ++ [L.nextThread] ∧ L'.joined = L.joined ∧
      ∃ l, L'.life L.nextThread = some l ∧ l.parent = some c) ∨
    ∃ child, a.joins = [child] ∧ pendingJoins acts = [] ∧ L'.joined = child :: L.joined ∧
      ∃ l, L.life child = some l ∧ l.parent = some c := by
  cases hs with
  | quiet ha => exact .inl ⟨joins_of_quiet ha hfollows, rfl⟩
  | again hb =>
    refine .inl ⟨?_, rfl⟩
    unfold Act.again at hb
    split at hb
    next =>
      obtain rfl := Option.some.inj hb
      simp [Act.joins]
    next =>
      obtain rfl := Option.some.inj hb
      simp [Act.joins]
    next => simp at hb
  | @longTermScheduler job rest threads pid priority l hl hparent =>
    exact .inr (.inl ⟨by simp [Act.joins], rfl, l, Function.update_self .., hparent⟩)
  | @threadJoin child l hl hparent | @waitForChildren child l hl hparent =>
    exact .inr (.inr ⟨child, rfl, by simp [joins_destroyActs, Act.joins], rfl, l, hl, hparent⟩)
  | exit => exact .inl ⟨by simp [joins_destroyActs, Act.joins], rfl⟩
  | @loop item rest slept hitem => exact .inl ⟨by cases item <;> rfl, rfl⟩
  | _ => exact .inl ⟨rfl, rfl⟩

end LedgerStep

namespace JoinControl

variable {m m' : Machine} {e : Event}

/-- A step of the current thread keeps the control. -/
theorem resume_step {memory : Memory} {a : Act} {rest acts : List Act} (h : JoinControl m)
    (hB : m.kernel.ledger.Balanced) (hs : m.Step (.resume memory) m')
    (hacts : m.acts m.current = a :: rest) (hk : a.run memory m.kernel = .ok (acts, m'.kernel))
    (hacts' : m'.acts m.current = acts ++ rest)
    (hL : LedgerStep m.current m.kernel.ledger a acts m'.kernel.ledger) : JoinControl m' := by
  -- the act hands on what it was to join, adds a new thread to it, or has joined a child
  have hfresh := hB.fresh _ le_rfl
  have hnodup := h.nodup m.current
  have hother : ∀ u, u ≠ m.current → m'.acts u = m.acts u :=
    fun u hu => Machine.exec_acts_of_ne hs.2 hu
  have hchild : ∀ {u child}, child ∈ pendingJoins (m.acts u) →
      (∃ l, m'.kernel.ledger.life child = some l ∧ l.parent = some u) ∧
        child ∉ m.kernel.ledger.joined ∧ child ≠ m.kernel.ledger.nextThread := by
    intro u child hin
    obtain ⟨⟨l, hl, hpar⟩, hout⟩ := h.child u child hin
    obtain ⟨l', hl', hpar'⟩ := hL.parent hfresh hl
    refine ⟨⟨l', hl', hpar'.trans hpar⟩, hout, ?_⟩
    rintro rfl
    simp [hfresh] at hl
  rw [hacts, pendingJoins_cons] at hnodup
  rcases hL.joins (Act.run_follows hk) with ⟨hsame, hjoined⟩ | ⟨hnew, hjoined, l, hl, hpar⟩ |
    ⟨joinee, ha, hdone, hjoined, l, hl, hpar⟩
  · have hpending : ∀ u, pendingJoins (m'.acts u) = pendingJoins (m.acts u) := by
      intro u
      by_cases hu : u = m.current
      · rw [hu, hacts', hacts, pendingJoins_append, hsame, pendingJoins_cons]
      · rw [hother u hu]
    refine ⟨fun u => hpending u ▸ h.nodup u, fun u child hin => ?_⟩
    rw [hpending] at hin
    obtain ⟨hlife, hout, -⟩ := hchild hin
    exact ⟨hlife, hjoined ▸ hout⟩
  · have hpending : pendingJoins (m'.acts m.current) =
        a.joins ++ ([m.kernel.ledger.nextThread] ++ pendingJoins rest) := by
      rw [hacts', pendingJoins_append, hnew, List.append_assoc]
    have hmem : ∀ {child}, child ∈ pendingJoins (m'.acts m.current) →
        child = m.kernel.ledger.nextThread ∨ child ∈ pendingJoins (m.acts m.current) := by
      intro child hin
      rw [hpending] at hin
      simp only [List.mem_append, List.mem_singleton] at hin
      rw [hacts, pendingJoins_cons, List.mem_append]
      tauto
    -- the new thread is not among the children, which all exist
    have hfreshJoins : m.kernel.ledger.nextThread ∉ a.joins ++ pendingJoins rest :=
      fun hin => (hchild (u := m.current) (by rwa [hacts])).2.2 rfl
    refine ⟨fun u => ?_, fun u child hin => ?_⟩
    · by_cases hu : u = m.current
      · rw [hu, hpending]
        exact (List.nodup_middle (a := m.kernel.ledger.nextThread)).mpr
          (List.nodup_cons.mpr ⟨hfreshJoins, hnodup⟩)
      · exact hother u hu ▸ h.nodup u
    · rw [hjoined]
      by_cases hu : u = m.current
      · subst hu
        rcases hmem hin with rfl | hin
        · exact ⟨⟨l, hl, hpar⟩, (hB.unborn _ hfresh).2⟩
        · obtain ⟨hlife, hout, -⟩ := hchild hin
          exact ⟨hlife, hout⟩
      · rw [hother u hu] at hin
        obtain ⟨hlife, hout, -⟩ := hchild hin
        exact ⟨hlife, hout⟩
  · rw [ha] at hnodup
    -- each child is listed once, so the one just joined is not to be joined again
    obtain ⟨hjoinee, hrest⟩ := List.nodup_cons.mp hnodup
    have hpending : pendingJoins (m'.acts m.current) = pendingJoins rest := by
      rw [hacts', pendingJoins_append, hdone, List.nil_append]
    refine ⟨fun u => ?_, fun u child hin => ?_⟩
    · by_cases hu : u = m.current
      · rwa [hu, hpending]
      · exact hother u hu ▸ h.nodup u
    · rw [hjoined, List.mem_cons]
      by_cases hu : u = m.current
      · subst hu
        rw [hpending] at hin
        have hin' : child ∈ pendingJoins (m.acts m.current) := by
          rw [hacts, pendingJoins_cons]
          exact List.mem_append_right _ hin
        obtain ⟨hlife, hout, -⟩ := hchild hin'
        refine ⟨hlife, not_or.mpr ⟨?_, hout⟩⟩
        rintro rfl
        exact hjoinee hin
      · rw [hother u hu] at hin
        obtain ⟨hlife, hout, -⟩ := hchild hin
        refine ⟨hlife, not_or.mpr ⟨?_, hout⟩⟩
        -- the child just joined is one of the current thread
        rintro rfl
        obtain ⟨⟨l', hl', hpar'⟩, -⟩ := h.child u child hin
        obtain rfl := Option.some.inj (hl.symm.trans hl')
        exact hu (Option.some.inj (hpar'.symm.trans hpar))

/-- What a call is to join may be joined. -/
theorem joins_of_call {a : Act} (hcall : a.isCall = true) (hjoin : m.JoinsOnce (.call a)) :
    a.joins.Nodup ∧ ∀ child ∈ a.joins, m.Joinable child := by
  unfold Act.joins
  split
  next child caller =>
    refine ⟨List.nodup_singleton _, fun child' hin => ?_⟩
    obtain rfl := List.mem_singleton.mp hin
    exact hjoin
  next => simp [Act.isCall] at hcall
  next threads => exact hjoin
  next => simp [Act.isCall] at hcall
  next => simp

/-- Every step that joins no child twice keeps the control. -/
theorem step (h : JoinControl m) (hr : Reachable Machine.Step boot m) (hs : m.Step e m')
    (hjoin : m.JoinsOnce e) : JoinControl m' := by
  -- an interrupt, a call of the current thread, or one of its atomic sections
  rcases hs.ledger hr with ⟨he, hacts, hL⟩ | ⟨a, rfl, hnil, hcall, hacts', hk⟩ |
    ⟨memory, a, rest, acts, rfl, hacts, hk, hacts', hL⟩
  · exact ⟨fun u => hacts ▸ h.nodup u, fun u child hin => hL ▸ h.child u child (hacts ▸ hin)⟩
  · obtain ⟨hnodup, hjoinable⟩ := joins_of_call hcall hjoin
    refine ⟨fun u => ?_, fun u child hin => ?_⟩
    · by_cases hu : u = m.current
      · simpa [hu, hacts'] using hnodup
      · rw [Machine.exec_acts_of_ne hs.2 hu]
        exact h.nodup u
    · rw [hk]
      by_cases hu : u = m.current
      · rw [hu, hacts'] at hin
        obtain ⟨⟨th, hth, hpar⟩, hout⟩ := hjoinable child (by simpa using hin)
        exact ⟨⟨th.life, life_of_threads hth, hu ▸ hpar⟩, hout⟩
      · rw [Machine.exec_acts_of_ne hs.2 hu] at hin
        exact h.child u child hin
  · exact h.resume_step (reachable_balanced hr) hs hacts hk hacts' hL

end JoinControl

theorem joinControl_boot : JoinControl boot := by
  have hnil : ∀ u, pendingJoins (boot.acts u) = [] := by
    intro u
    apply List.flatMap_eq_nil_iff.mpr
    intro a ha
    rcases mem_boot_acts ha with rfl | rfl <;> rfl
  refine ⟨fun u => ?_, fun u child hin => ?_⟩
  · rw [hnil]
    exact List.nodup_nil
  · simp [hnil] at hin

/-- In a run that joins no child twice, no child that is still to be joined has been. -/
theorem joinControl_of_run {tr : List (Machine × Event)} {m n : Machine}
    (h : Run Machine.Step boot tr m) (hjoins : ∀ p ∈ tr, p.1.JoinsOnce p.2)
    (hn : n ∈ visited tr m) : JoinControl n := by
  have hI := h.invariant_of_visited (I := fun m => Reachable Machine.Step boot m ∧ JoinControl m)
    (C := Machine.JoinsOnce) hjoins ⟨.refl _, joinControl_boot⟩
    (fun m e m' hI hC hs => ⟨hI.1.tail hs, hI.2.step hI.1 hs hC⟩) hn
  exact hI.2

/-! ## The properties together -/

/-- Threads are kept until the last holder lets go, destroyed once, and not touched afterwards. -/
structure Machine.Lifecycle (m : Machine) : Prop where
  /-- `refcount` counts the thread itself until it exits, and its parent until it has joined. -/
  refcount : ∀ t th, m.kernel.sched.threads t = some th →
    th.refcount = m.kernel.ledger.holders t th.life
  /-- The destruction is scheduled with the last reference. -/
  scheduled : ∀ t, t ∈ m.kernel.scheduled ↔
    ∃ th, m.kernel.sched.threads t = some th ∧ th.refcount = 0
  scheduled_nodup : m.kernel.scheduled.Nodup
  /-- `thread_destroy` runs on an exited thread that is nowhere any more. -/
  destroyed : ∀ u t a, a ∈ m.acts u → a.Destroys t →
    (∃ th, m.kernel.sched.threads t = some th ∧ th.state = .exited) ∧
      t ≠ m.current ∧ ∀ q, t ∉ m.kernel.sched.queue q
  /-- Each object of a thread whose destruction is scheduled is given back, or is still to be. -/
  conserved : m.Conserved
  freed_nodup : m.kernel.sched.freed.Nodup
  /-- No event that can come now accesses what has been given back. -/
  untouched : ∀ e f, m.Enabled e → m.exec e = .error f → ¬f.IsInvalidAccess
  /-- A join returns what the child has passed to `thread_exit`. -/
  returned : ∀ t code, (t, code) ∈ m.kernel.returned → m.kernel.exitArg t = some code

/-- The thread into whose process the act is about to store, behind `thread_make_runnable`. -/
def ThreadAct.storesInto : ThreadAct → Option ThreadId
  | .createPid t _ | .createPriority t => some t
  | _ => none

/-- If the current thread is about to store the pid or the priority in `thread_create`, the new
thread has not been destroyed. -/
def Machine.CreateFinishes (m : Machine) : Prop :=
  ∀ a rest t, m.acts m.current = .thread a :: rest → a.storesInto = some t →
    .thread t ∉ m.kernel.sched.freed ∧ .process t ∉ m.kernel.sched.freed

section Lifecycle

variable {m : Machine}

/-- A child that is still to be joined is allocated. -/
theorem JoinControl.objectAllocated {u : ThreadId} {o : Object} (h : JoinControl m)
    (hr : Reachable Machine.Step boot m) (hin : o.owner ∈ pendingJoins (m.acts u)) :
    m.kernel.sched.ObjectAllocated o := by
  obtain ⟨⟨l, hl, hpar⟩, hout⟩ := h.child u _ hin
  refine objectAllocated_of_refcount hr hl ?_
  -- the parent still counts in `refcount`
  have hparent : l.parent ≠ none ∧ o.owner ∉ m.kernel.ledger.joined := ⟨by simp [hpar], hout⟩
  rw [(reachable_balanced hr).refcount _ l hl, Ledger.holders, if_pos hparent]
  omega

/-- The acts access allocated objects only. -/
theorem Machine.CreateFinishes.accesses {a : Act} {rest : List Act} {o : Object}
    (h : m.CreateFinishes) (hr : Reachable Machine.Step boot m) (hj : JoinControl m)
    (hacts : m.acts m.current = a :: rest) (ho : o ∈ a.accesses) :
    m.kernel.sched.ObjectAllocated o := by
  have hin : a ∈ m.acts m.current := hacts ▸ List.mem_cons_self
  have hjoin : ∀ child, child ∈ a.joins → child ∈ pendingJoins (m.acts m.current) := by
    intro child hchild
    rw [hacts, pendingJoins_cons]
    exact List.mem_append_left _ hchild
  -- the stores of `thread_create`
  have hcreate : ∀ (b : ThreadAct) (t : ThreadId), a = .thread b → b.storesInto = some t →
      a.Finishes t → o ∈ [Object.thread t, .process t] → m.kernel.sched.ObjectAllocated o := by
    rintro b t rfl hb hfin ho
    obtain ⟨hth, -⟩ := reachable_unfinished hr ⟨_, _, hin, hfin⟩
    obtain ⟨hthread, hprocess⟩ := h b rest t hacts hb
    rcases List.mem_pair.mp ho with rfl | rfl
    · exact ⟨hth, hthread⟩
    · exact ⟨hth, hprocess⟩
  unfold Act.accesses at ho
  split at ho
  -- these have the condition, a join its parent, and a destruction what it has not freed
  next t pid => exact hcreate _ t rfl rfl (.inr (.inl ⟨pid, rfl⟩)) ho
  next t => exact hcreate _ t rfl rfl (.inr (.inr rfl)) ho
  next child caller =>
    rcases List.mem_pair.mp ho with rfl | rfl <;>
      exact hj.objectAllocated hr (hjoin child (List.mem_singleton_self _))
  next child caller =>
    obtain rfl := List.mem_singleton.mp ho
    exact hj.objectAllocated hr (hjoin child (List.mem_singleton_self _))
  next t =>
    obtain rfl := List.mem_singleton.mp ho
    obtain ⟨l, hl, -⟩ := (reachable_destroyControl hr).destroy t _ _ (.inl rfl) hin
    obtain ⟨th, hth, -⟩ := threads_of_life hl
    exact ⟨⟨th, hth⟩, not_mem_freed_of_willFree hr hin (by simp [Act.willFree, Object.owner])⟩
  next t =>
    obtain rfl := List.mem_singleton.mp ho
    obtain ⟨l, hl, -⟩ := (reachable_destroyControl hr).destroy t _ _ (.inr (.inl rfl)) hin
    obtain ⟨th, hth, -⟩ := threads_of_life hl
    exact ⟨⟨th, hth⟩, not_mem_freed_of_willFree hr hin (by simp [Act.willFree])⟩
  next => exact absurd ho List.not_mem_nil

/-- What the act gives back belongs to an exited thread. -/
theorem exited_of_frees {a : Act} {rest : List Act} {o : Object}
    (hr : Reachable Machine.Step boot m) (hacts : m.acts m.current = a :: rest)
    (ho : a.frees = some o) : m.kernel.ledger.Exited o.owner := by
  refine (reachable_destroyControl hr).destroy _ m.current a ?_ (hacts ▸ List.mem_cons_self)
  unfold Act.frees at ho
  split at ho <;> simp_all [Act.Destroys] <;> subst ho <;> simp [Object.owner]

/-- No event accesses what has been given back. -/
theorem Machine.CreateFinishes.untouched {e : Event} {f : Fault} (h : m.CreateFinishes)
    (hr : Reachable Machine.Step boot m) (hj : JoinControl m) (he : m.exec e = .error f) :
    ¬f.IsInvalidAccess := by
  rintro ⟨o, rfl⟩
  rcases Machine.exec_error he with ⟨memory, a, rest, rfl, hacts, hrun⟩ | hassert | ⟨hd, -⟩
  · -- the ways in which an act can fail, each with what it says about the state
    cases Act.run_error hrun with
    | dangling hf hd => exact reachable_not_dangling hr hd
    | freed hf ho hd => exact not_dangling_free hr (exited_of_frees hr hacts ho) hd
    | notFresh hf hn =>
      have hfresh := (reachable_balanced hr).fresh _ le_rfl
      rcases hn with hn | hn <;>
        obtain ⟨l, hl, -⟩ := (reachable_destroyControl hr).freed _ hn
      · exact absurd (hfresh.symm.trans hl) (by simp)
      · exact absurd (hfresh.symm.trans hl) (by simp)
    | accessed hf ho hno => exact hno (h.accesses hr hj hacts ho)
  · simp at hassert
  · exact reachable_not_dangling hr hd

/-- All but the last property hold in every reachable state. -/
theorem lifecycle_iff_untouched (hr : Reachable Machine.Step boot m) :
    m.Lifecycle ↔ ∀ e f, m.Enabled e → m.exec e = .error f → ¬f.IsInvalidAccess := by
  refine ⟨Machine.Lifecycle.untouched, fun huntouched => ?_⟩
  have hB := reachable_balanced hr
  constructor
  · exact fun t th hth => hB.refcount t th.life (life_of_threads hth)
  · intro t
    refine (hB.scheduled t).trans ⟨?_, ?_⟩
    · rintro ⟨l, hl, hzero⟩
      obtain ⟨th, hth, rfl⟩ := threads_of_life hl
      exact ⟨th, hth, hzero⟩
    · rintro ⟨th, hth, hzero⟩
      exact ⟨th.life, life_of_threads hth, hzero⟩
  · exact hB.nodup
  · intro u t a hin ha
    have hex := (reachable_destroyControl hr).destroy t u a ha hin
    refine ⟨?_, not_place_of_exited hr hex⟩
    obtain ⟨l, hl, hexited⟩ := hex
    obtain ⟨th, hth, rfl⟩ := threads_of_life hl
    exact ⟨th, hth, by simpa [Thread.life] using hexited⟩
  · exact reachable_conserved hr
  · exact freed_nodup hr
  · exact huntouched
  · exact hB.returned

/-- Behind the destruction of its thread, `thread_create` stores into freed memory. -/
theorem storesInto_error {a : ThreadAct} {t : ThreadId} {rest : List Act}
    (hacts : m.acts m.current = .thread a :: rest) (ha : a.storesInto = some t)
    (hfreed : .thread t ∈ m.kernel.sched.freed ∨ .process t ∈ m.kernel.sched.freed) :
    ∃ f, m.exec (.resume .available) = .error f ∧ f.IsInvalidAccess := by
  -- both stores dereference both objects
  have hstore : ∀ store, ∃ f, storeProcess t store m.kernel.sched = .error f ∧
      f.IsInvalidAccess := by
    intro store
    cases hs : storeProcess t store m.kernel.sched with
    | ok s =>
      obtain ⟨th, -, hthread, hprocess, -⟩ := storeProcess_eq_ok hs
      exact absurd hfreed (not_or.mpr ⟨hthread, hprocess⟩)
    | error f => exact ⟨f, rfl, (storeProcess_error hs).2⟩
  unfold ThreadAct.storesInto at ha
  split at ha
  next u pid =>
    obtain rfl := Option.some.inj ha
    obtain ⟨f, hs, hf⟩ := hstore fun p => { p with pid }
    refine ⟨f, ?_, hf⟩
    simp [Machine.exec, hacts, Act.run, ThreadAct.run, Kernel.atomically, threadCreatePid, hs]
  next u =>
    obtain rfl := Option.some.inj ha
    obtain ⟨f, hs, hf⟩ := hstore fun p => { p with priority := defaultPriority }
    refine ⟨f, ?_, hf⟩
    simp [Machine.exec, hacts, Act.run, ThreadAct.run, Kernel.atomically, threadCreatePriority, hs]
  next => simp at ha

end Lifecycle

/-- In a run that joins no child twice, threads are well kept in every state exactly when no
`thread_create` comes to the store of the pid or the priority behind the destruction of its
thread. -/
theorem lifecycle_iff_createFinishes {tr : List (Machine × Event)} {m : Machine}
    (h : Run Machine.Step boot tr m) (hjoins : ∀ p ∈ tr, p.1.JoinsOnce p.2) :
    (∀ n ∈ visited tr m, n.Lifecycle) ↔ ∀ n ∈ visited tr m, n.CreateFinishes := by
  have hstate : ∀ n ∈ visited tr m, n.Lifecycle ↔ n.CreateFinishes := by
    intro n hn
    -- in each state for itself: all but the accesses to freed memory is invariant
    have hr := h.reachable_of_visited hn
    have hj := joinControl_of_run h hjoins hn
    rw [lifecycle_iff_untouched hr]
    constructor
    · intro huntouched a rest t hacts ha
      rw [← not_or]
      intro hfreed
      obtain ⟨f, he, hf⟩ := storesInto_error hacts ha hfreed
      exact huntouched _ f (by simp [Machine.Enabled, hacts]) he hf
    · exact fun hcreate e f _ he => hcreate.untouched hr hj he
  exact forall₂_congr hstate

/-- `geekos_main` makes a detached thread and is interrupted by the keyboard behind the store of the
pid. The workqueue thread goes to sleep, and the new thread exits. -/
def destroyedChild : List Event :=
  Machine.call (.thread (.create .detached (.thread false))) 7 ++ [.keyboard (some 0)] ++
    Machine.resume 2 ++ Machine.call (.thread (.exit 0)) 4 ++ [.keyboard (some 0)] ++
    Machine.resume 7

/-- These events are a run, and no thread joins in it. -/
theorem run_destroyedChild : ∃ tr, Run Machine.Step boot tr (Machine.after destroyedChild) ∧
    ∀ p ∈ tr, p.1.JoinsOnce p.2 := by
  obtain ⟨tr, hr, htr⟩ := Machine.run_after destroyedChild (by decide)
  refine ⟨tr, hr, fun p hp => ?_⟩
  have he : p.2 ∈ destroyedChild := htr ▸ List.mem_map_of_mem hp
  have hall : ∀ e ∈ destroyedChild, (∀ child caller, e ≠ .call (.thread (.join child caller))) ∧
      ∀ threads, e ≠ .call (.thread (.waitForChildren threads)) := by
    simp [destroyedChild, Machine.call, Machine.resume]
  unfold Machine.JoinsOnce
  split
  next child caller h => exact absurd h ((hall _ he).1 child caller)
  next threads h => exact absurd h ((hall _ he).2 threads)
  next => trivial

/-- The law above on a run in which `thread_create` is interrupted. -/
theorem lifecycle_iff_createFinishes_destroyedChild :
    ∃ tr m, Run Machine.Step boot tr m ∧ m.kernel.sched.freed ≠ [] ∧
      ((∀ n ∈ visited tr m, n.Lifecycle) ↔ ∀ n ∈ visited tr m, n.CreateFinishes) := by
  obtain ⟨tr, hr, hjoins⟩ := run_destroyedChild
  exact ⟨tr, _, hr, by decide, lifecycle_iff_createFinishes hr hjoins⟩

/-- The new thread has been destroyed, and `thread_create` is about to store the priority into its
process. -/
theorem not_lifecycle_destroyedChild :
    (∃ tr, Run Machine.Step boot tr (Machine.after destroyedChild) ∧
        ∀ p ∈ tr, p.1.JoinsOnce p.2) ∧
      (Machine.after destroyedChild).acts 0 = [.thread (.createPriority 3)] ∧
      (Machine.after destroyedChild).kernel.sched.freed = [.thread 3, .stack 3, .process 3] ∧
      ¬(Machine.after destroyedChild).Lifecycle := by
  have hacts : (Machine.after destroyedChild).acts 0 = [.thread (.createPriority 3)] := by decide
  have hcur : (Machine.after destroyedChild).current = 0 := by decide
  have hfreed : (Machine.after destroyedChild).kernel.sched.freed =
      [.thread 3, .stack 3, .process 3] := by decide
  refine ⟨run_destroyedChild, hacts, hfreed, fun hlife => ?_⟩
  have hnext : (Machine.after destroyedChild).acts (Machine.after destroyedChild).current =
      [.thread (.createPriority 3)] := by rw [hcur, hacts]
  obtain ⟨f, he, hf⟩ := storesInto_error hnext rfl
    (.inl (by rw [hfreed]; exact List.mem_cons_self))
  exact hlife.untouched _ f (by simp [Machine.Enabled, hcur, hacts]) he hf

end GeekOS
