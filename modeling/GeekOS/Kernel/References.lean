import GeekOS.Kernel.Ledger

/-!
# References to threads

A thread refers to itself until it exits, and the parent of an attached thread refers to it until
it has joined. `refcount` counts these holders, the destruction is scheduled when the last of them
detaches, and a join returns what the child passed to `thread_exit`.

* `Ledger.Balanced`: the invariant of the ledger;
* `ExitControl`: where the threads stand in `thread_exit` and `thread_join`;
* `reachable_balanced`: both hold in every reachable state.
-/

namespace GeekOS

open Result TransitionSystem

namespace Ledger

variable {L L' : Ledger} {c t : ThreadId} {a : Act} {acts : List Act}

/-- The number of holders of a thread: itself until it exits, and its parent until it has
joined, if it is attached. -/
def holders (L : Ledger) (t : ThreadId) (l : Life) : ℕ :=
  (if L.exitArg t = none then 1 else 0) + (if l.parent ≠ none ∧ t ∉ L.joined then 1 else 0)

/-- The entries of the ledger agree with each other. -/
structure Balanced (L : Ledger) : Prop where
  fresh : ∀ t, L.nextThread ≤ t → L.life t = none
  unborn : ∀ t, L.life t = none → L.exitArg t = none ∧ t ∉ L.joined
  refcount : ∀ t l, L.life t = some l → l.refcount = L.holders t l
  nodup : L.scheduled.Nodup
  scheduled : ∀ t, t ∈ L.scheduled ↔ ∃ l, L.life t = some l ∧ l.refcount = 0
  exited : ∀ t l, L.life t = some l → l.exited = true → L.exitArg t = some l.exitcode
  returned : ∀ t code, (t, code) ∈ L.returned → L.exitArg t = some code

namespace Balanced

/-- A new thread is held by itself and by its parent. -/
theorem spawn {l : Life} (h : L.Balanced) (hl : l.New c) : (L.spawn l).Balanced := by
  obtain ⟨harg, hjoin⟩ := h.unborn _ (h.fresh _ le_rfl)
  constructor
  · intro t ht
    have hlt : L.nextThread < t := ht
    exact (Function.update_of_ne hlt.ne' ..).trans (h.fresh t hlt.le)
  · intro t ht
    by_cases htn : t = L.nextThread
    · simp [Ledger.spawn, htn] at ht
    · exact h.unborn t (by simpa [Ledger.spawn, htn] using ht)
  · intro t l' hl'
    by_cases htn : t = L.nextThread
    · subst htn
      obtain rfl : l = l' := by simpa [Ledger.spawn] using hl'
      -- with a parent it has two references, detached one, and as many holders
      rcases hl.2 with ⟨hpar, href⟩ | ⟨hpar, href⟩ <;>
        simp [holders, Ledger.spawn, hpar, href, harg, hjoin]
    · exact h.refcount t l' (by simpa [Ledger.spawn, htn] using hl')
  · exact h.nodup
  · intro t
    change t ∈ L.scheduled ↔ _
    rw [h.scheduled]
    by_cases htn : t = L.nextThread
    · subst htn
      have hpos : l.refcount ≠ 0 := by rcases hl.2 with ⟨-, href⟩ | ⟨-, href⟩ <;> simp [href]
      simp [Ledger.spawn, h.fresh _ le_rfl, hpos]
    · simp [Ledger.spawn, htn]
  · intro t l' hl' hex
    by_cases htn : t = L.nextThread
    · subst htn
      obtain rfl : l = l' := by simpa [Ledger.spawn] using hl'
      simp [hl.1] at hex
    · exact h.exited t l' (by simpa [Ledger.spawn, htn] using hl') hex
  · exact h.returned

/-- A holder detaches: `exitArg` and `joined` are the entries that tell who is left. -/
theorem detach {l : Life} (exitArg : ThreadId → Option ℤ) (joined : List ThreadId)
    (h : L.Balanced) (hl : L.life t = some l) (hpos : 0 < l.refcount)
    (hkeep : ∀ u code, L.exitArg u = some code → exitArg u = some code)
    (harg : ∀ u, u ≠ t → exitArg u = L.exitArg u)
    (hjoin : ∀ u, u ≠ t → (u ∈ joined ↔ u ∈ L.joined))
    (hholders : { L with exitArg, joined }.holders t l = L.holders t l - 1) :
    { L.detach t l with exitArg, joined }.Balanced := by
  have hlife : ∀ {u}, u ≠ t → (L.detach t l).life u = L.life u :=
    fun hu => Function.update_of_ne hu ..
  have hlife' : (L.detach t l).life t = some { l with refcount := l.refcount - 1 } :=
    Function.update_self ..
  have hmem : ∀ u, u ∈ (L.detach t l).scheduled ↔
      u ∈ L.scheduled ∨ u = t ∧ l.refcount = 1 := by
    intro u
    by_cases hone : l.refcount = 1 <;> simp [Ledger.detach, hone]
  -- it has a reference left, so that its destruction has not been scheduled
  have hout : t ∉ L.scheduled := by
    intro hin
    obtain ⟨l', hl', hzero⟩ := (h.scheduled t).mp hin
    obtain rfl := Option.some.inj (hl.symm.trans hl')
    omega
  constructor
  · intro u hu
    have hne : u ≠ t := by
      rintro rfl
      simp [h.fresh u hu] at hl
    exact (hlife hne).trans (h.fresh u hu)
  · intro u hu
    have hne : u ≠ t := by
      rintro rfl
      simp [hlife'] at hu
    obtain ⟨h₁, h₂⟩ := h.unborn u ((hlife hne).symm.trans hu)
    exact ⟨(harg u hne).trans h₁, fun hin => h₂ ((hjoin u hne).mp hin)⟩
  · intro u l' hl'
    by_cases hu : u = t
    · subst hu
      obtain rfl := Option.some.inj (hlife'.symm.trans hl')
      -- one reference less, and one holder less
      change l.refcount - 1 = { L with exitArg, joined }.holders u l
      rw [hholders, h.refcount u l hl]
    · rw [h.refcount u l' ((hlife hu).symm.trans hl')]
      simp [holders, harg u hu, hjoin u hu]
  · by_cases hone : l.refcount = 1
    · -- the last reference: the destruction is scheduled, for the first time
      have hnodup : (L.scheduled ++ [t]).Nodup := by
        rw [List.nodup_append]
        exact ⟨h.nodup, List.nodup_singleton t, fun x hx y hy hxy =>
          hout (by rw [← List.mem_singleton.mp hy, ← hxy]; exact hx)⟩
      simpa [Ledger.detach, hone] using hnodup
    · simpa [Ledger.detach, hone] using h.nodup
  · intro u
    change u ∈ (L.detach t l).scheduled ↔ _
    rw [hmem]
    by_cases hu : u = t
    · subst hu
      simp only [hout, hlife', Option.some.injEq, exists_eq_left', false_or, true_and]
      omega
    · simp [h.scheduled, hlife hu, hu]
  · intro u l' hl' hex
    by_cases hu : u = t
    · subst hu
      obtain rfl := Option.some.inj (hlife'.symm.trans hl')
      exact hkeep _ _ (h.exited u l hl hex)
    · exact hkeep _ _ (h.exited u l' ((hlife hu).symm.trans hl') hex)
  · exact fun u code hin => hkeep _ _ (h.returned u code hin)

/-- The thread ends, and the code it has passed to `thread_exit` is stored. -/
theorem finish {l : Life} {code : ℤ} (h : L.Balanced) (hl : L.life t = some l)
    (harg : L.exitArg t = some code) :
    { L with
      life := Function.update L.life t (some { l with exitcode := code, exited := true })
    }.Balanced := by
  constructor
  · intro u hu
    have hne : u ≠ t := by
      rintro rfl
      simp [h.fresh u hu] at hl
    exact (Function.update_of_ne hne ..).trans (h.fresh u hu)
  · intro u hu
    have hne : u ≠ t := by
      rintro rfl
      simp at hu
    exact h.unborn u (by simpa [hne] using hu)
  · intro u l' hl'
    by_cases hu : u = t
    · subst hu
      obtain rfl : { l with exitcode := code, exited := true } = l' := by simpa using hl'
      exact h.refcount u l hl
    · exact h.refcount u l' (by simpa [hu] using hl')
  · exact h.nodup
  · intro u
    change u ∈ L.scheduled ↔ _
    rw [h.scheduled]
    by_cases hu : u = t
    · subst hu
      simp [hl]
    · simp [hu]
  · intro u l' hl' hex
    by_cases hu : u = t
    · subst hu
      obtain rfl : { l with exitcode := code, exited := true } = l' := by simpa using hl'
      exact harg
    · exact h.exited u l' (by simpa [hu] using hl') hex
  · exact h.returned

/-- The last reference to an exited child is that of its parent. -/
theorem join {l : Life} (h : L.Balanced) (hl : L.life t = some l) (hex : l.exited = true)
    (hpos : 0 < l.refcount) : { L.detach t l with joined := t :: L.joined }.Balanced := by
  refine h.detach L.exitArg _ hl hpos (fun _ _ hu => hu) (fun _ _ => rfl)
    (fun u hu => by simp [hu]) ?_
  simp only [holders, h.exited t l hl hex, List.mem_cons_self, not_true_eq_false, and_false,
    if_false, reduceCtorEq]
  split <;> rfl

/-- Every step keeps the ledger balanced, where a thread exits only once and with the code it is
asked to, and a join returns the code of the child. -/
theorem step (h : L.Balanced) (hs : LedgerStep c L a acts L')
    (hexit : ∀ code, a = .thread (.exit code) → L.exitArg c = none)
    (hfinish : ∀ code, a = .thread (.exitFinish code) → L.exitArg c = some code)
    (hreturn : ∀ t code, a = .thread (.joinReturn t code) → L.exitArg t = some code) :
    L'.Balanced := by
  cases hs with
  | quiet | again => exact h
  | create hl | createFromJob hl | longTermScheduler hl => exact h.spawn hl
  | @exit code l hl hpos =>
    have hnone := hexit code rfl
    refine h.detach _ L.joined hl hpos (fun u code' hu => ?_)
      (fun u hu => Function.update_of_ne hu ..) (fun _ _ => Iff.rfl) (by simp [holders, hnone])
    have hne : u ≠ c := by
      rintro rfl
      simp [hnone] at hu
    rwa [Function.update_of_ne hne]
  | @exitFinish code l hl => exact h.finish hl (hfinish code rfl)
  | threadJoin hl hparent hexited hpos | waitForChildren hl hparent hexited hpos =>
    exact h.join hl hexited hpos
  | @joinReturn child code =>
    refine ⟨h.fresh, h.unborn, h.refcount, h.nodup, h.scheduled, h.exited, fun t code' ht => ?_⟩
    rcases List.mem_cons.mp ht with heq | ht
    · obtain ⟨rfl, rfl⟩ := Prod.mk.inj heq
      exact hreturn _ _ rfl
    · exact h.returned t code' ht
  | link | loop | destroyProcess | destroyStack | destroyThread =>
    exact ⟨h.fresh, h.unborn, h.refcount, h.nodup, h.scheduled, h.exited, h.returned⟩

end Balanced

end Ledger

/-! ## The control of an exit -/

/-- The act belongs to the `workqueue_schedule_work` for the destruction of the thread. -/
def Act.SchedulesDestroy (t : ThreadId) (a : Act) : Prop :=
  (∃ iflag slept, a = .work (.schedule (.threadDestroy t) iflag slept)) ∨
    ∃ iflag, a = .work (.link (.threadDestroy t) iflag)

/-- A thread that has dropped its own reference is about to end: it still schedules its
destruction, or interrupts stay disabled until it has ended. -/
def Machine.Leaves (m : Machine) (t : ThreadId) (code : ℤ) : Prop :=
  (t = m.current ∧ m.acts t = [.thread (.exitFinish code)]) ∨
    ∃ a, a.SchedulesDestroy t ∧ m.acts t = [a, .thread (.exitFinish code)]

/-- Where the threads stand in `thread_exit` and `thread_join`. -/
structure ExitControl (m : Machine) : Prop where
  exit : ∀ t code, .thread (.exit code) ∈ m.acts t →
    m.acts t = [.thread (.exit code)] ∧ m.kernel.exitArg t = none
  exitFinish : ∀ t code, .thread (.exitFinish code) ∈ m.acts t →
    m.kernel.exitArg t = some code ∧ m.Leaves t code
  exited : ∀ t code, m.kernel.exitArg t = some code →
    (∃ l, m.kernel.sched.life t = some l ∧ l.exited = true) ∨
      .thread (.exitFinish code) ∈ m.acts t
  joinReturn : ∀ u t code, .thread (.joinReturn t code) ∈ m.acts u → m.kernel.exitArg t = some code

/-- The code a thread has passed to `thread_exit` is not changed. -/
theorem LedgerStep.exitArg {L L' : Ledger} {c t : ThreadId} {a : Act} {acts : List Act} {code : ℤ}
    (hs : LedgerStep c L a acts L')
    (hexit : ∀ code, a = .thread (.exit code) → L.exitArg c = none)
    (ht : L.exitArg t = some code) : L'.exitArg t = some code := by
  cases hs with
  | @exit code' l hl hpos =>
    have hne : t ≠ c := by
      rintro rfl
      simp [hexit code' rfl] at ht
    exact (Function.update_of_ne hne ..).trans ht
  | _ => exact ht

/-- It is there since the thread has called `thread_exit`. -/
theorem LedgerStep.exitArg_cases {L L' : Ledger} {c t : ThreadId} {a : Act} {acts : List Act}
    {code : ℤ} (hs : LedgerStep c L a acts L') (ht : L'.exitArg t = some code) :
    L.exitArg t = some code ∨ t = c ∧ a = .thread (.exit code) := by
  cases hs with
  | @exit code' l hl hpos =>
    by_cases htc : t = c
    · subst htc
      obtain rfl : code' = code := by simpa using ht
      exact .inr ⟨rfl, rfl⟩
    · exact .inl ((Function.update_of_ne htc ..).symm.trans ht)
  | _ => exact .inl ht

/-- A thread that has ended has ended for good. -/
theorem LedgerStep.exited {L L' : Ledger} {c t : ThreadId} {a : Act} {acts : List Act}
    (hs : LedgerStep c L a acts L') (hfresh : L.life L.nextThread = none)
    (ht : ∃ l, L.life t = some l ∧ l.exited = true) : ∃ l, L'.life t = some l ∧ l.exited = true := by
  obtain ⟨l, hl, hex⟩ := ht
  -- a new thread has an identity of its own
  have hspawn : ∀ new, (L.spawn new).life t = some l := by
    intro new
    have hne : t ≠ L.nextThread := by
      rintro rfl
      simp [hfresh] at hl
    exact (Function.update_of_ne hne ..).trans hl
  -- a record that is stored again is still that of a thread that has ended
  have hupdate : ∀ u l₀ l₁, L.life u = some l₀ → (l₀.exited = true → l₁.exited = true) →
      ∃ l, Function.update L.life u (some l₁) t = some l ∧ l.exited = true := by
    intro u l₀ l₁ hl₀ hkeep
    by_cases htu : t = u
    · subst htu
      obtain rfl := Option.some.inj (hl.symm.trans hl₀)
      exact ⟨l₁, Function.update_self .., hkeep hex⟩
    · exact ⟨l, (Function.update_of_ne htu ..).trans hl, hex⟩
  cases hs with
  | create | createFromJob | longTermScheduler => exact ⟨l, hspawn _, hex⟩
  | exit hl₀ | threadJoin hl₀ | waitForChildren hl₀ => exact hupdate _ _ _ hl₀ id
  | exitFinish hl₀ => exact hupdate _ _ _ hl₀ fun _ => rfl
  | _ => exact ⟨l, hl, hex⟩

/-- `thread_exit` notes the code. -/
theorem LedgerStep.exitArg_exit {L L' : Ledger} {c : ThreadId} {acts : List Act} {code : ℤ}
    (hs : LedgerStep c L (.thread (.exit code)) acts L') : L'.exitArg c = some code := by
  cases hs with
  | quiet ha => simp [Act.changesLedger] at ha
  | again hb => simp [Act.again] at hb
  | exit hl hpos => exact Function.update_self ..

/-- The thread has ended behind the end of `thread_exit`. -/
theorem LedgerStep.exited_exitFinish {L L' : Ledger} {c : ThreadId} {acts : List Act} {code : ℤ}
    (hs : LedgerStep c L (.thread (.exitFinish code)) acts L') :
    ∃ l, L'.life c = some l ∧ l.exited = true := by
  cases hs with
  | quiet ha => simp [Act.changesLedger] at ha
  | again hb => simp [Act.again] at hb
  | exitFinish hl => exact ⟨_, Function.update_self .., rfl⟩

/-- A join returns the exit code that is in the record. -/
theorem LedgerStep.exitcode_threadJoin {L L' : Ledger} {c t : ThreadId} {acts : List Act} {code : ℤ}
    (hs : LedgerStep c L (.thread (.joinTest t .threadJoin)) acts L')
    (hin : .thread (.joinReturn t code) ∈ acts) :
    ∃ l, L.life t = some l ∧ l.exited = true ∧ l.exitcode = code := by
  cases hs with
  | quiet ha => simp [Act.changesLedger] at ha
  | again hb =>
    obtain rfl := Option.some.inj hb
    simp at hin
  | @threadJoin child l hl hparent hexited hpos =>
    refine ⟨l, hl, hexited, ?_⟩
    rcases List.mem_append.mp hin with hin | hin
    · unfold Life.destroyActs at hin
      split at hin <;> simp at hin
    · simpa using (List.mem_singleton.mp hin).symm

namespace ExitControl

variable {m m' : Machine} {e : Event}

/-- The current thread has not ended. -/
theorem not_exited (hr : Reachable Machine.Step boot m) :
    ¬∃ l, m.kernel.sched.life m.current = some l ∧ l.exited = true := by
  rintro ⟨l, hl, hex⟩
  obtain ⟨th, hth, rfl⟩ := threads_of_life hl
  have hne := (reachable_placed hr).not_exited (.inl (List.mem_singleton_self _)) hth
  simp [Thread.life, hne] at hex

/-- A thread that has dropped its own reference goes on as `thread_exit` does. -/
theorem leaves_of_rest (h : ExitControl m) {t : ThreadId} {code : ℤ} {a : Act} {rest : List Act}
    (hacts : m.acts t = a :: rest) (hin : .thread (.exitFinish code) ∈ rest) :
    rest = [.thread (.exitFinish code)] ∧ a.SchedulesDestroy t := by
  obtain ⟨-, ⟨-, hone⟩ | ⟨b, hb, htwo⟩⟩ := h.exitFinish t code (hacts ▸ List.mem_cons_of_mem _ hin)
  · obtain ⟨-, rfl⟩ := List.cons.inj (hacts.symm.trans hone)
    simp at hin
  · obtain ⟨rfl, rfl⟩ := List.cons.inj (hacts.symm.trans htwo)
    exact ⟨rfl, hb⟩

/-- The current thread keeps the CPU in front of the end of `thread_exit`. -/
theorem current_eq {memory : Memory} {a : Act} {rest : List Act}
    (hs : m.Step (.resume memory) m') (hacts : m.acts m.current = a :: rest)
    (ha : (∃ code, a = .thread (.exit code)) ∨ ∃ item iflag, a = .work (.link item iflag)) :
    m'.current = m.current := by
  have hone : ∀ {l : Label}, m.Allows (.resume memory) l → a.Allows memory m.kernel l := by
    rintro l ⟨b, rest', hacts', hl⟩
    obtain ⟨rfl, -⟩ := List.cons.inj (hacts.symm.trans hacts')
    exact hl
  refine Option.some.inj ((Machine.exec_moves hs.2).current_eq (t := m.current) (fun hl => ?_)
    (fun q hl => ?_) (fun code hl => ?_) rfl) <;>
  · replace hl := hone hl
    rcases ha with ⟨code, rfl⟩ | ⟨item, iflag, rfl⟩ <;>
      simp [Act.Allows, Act.yields, Act.sleepsOn] at hl

section Resume

variable {memory : Memory} {a : Act} {rest acts : List Act} {t : ThreadId} {code : ℤ}

/-- The thread has dropped its own reference: by this act, or before it. -/
theorem exitFinish_step (h : ExitControl m) (hs : m.Step (.resume memory) m')
    (hacts : m.acts m.current = a :: rest) (hk : a.run memory m.kernel = .ok (acts, m'.kernel))
    (hacts' : m'.acts m.current = acts ++ rest)
    (hL : LedgerStep m.current m.kernel.ledger a acts m'.kernel.ledger)
    (hin : .thread (.exitFinish code) ∈ m'.acts m.current) :
    m'.kernel.exitArg m.current = some code ∧ m'.Leaves m.current code := by
  have hfollows := Act.run_follows hk
  rw [hacts'] at hin
  rcases List.mem_append.mp hin with hin | hin
  · cases hfollows.leadsTo hin
    -- the act is `thread_exit` itself, and nothing stands behind it
    obtain ⟨hone, hnone⟩ := h.exit m.current code (hacts ▸ List.mem_cons_self)
    obtain ⟨-, rfl⟩ := List.cons.inj (hacts.symm.trans hone)
    refine ⟨hL.exitArg_exit, ?_⟩
    · rcases hfollows with rfl | rfl
      · exact .inl ⟨(current_eq hs hacts (.inl ⟨code, rfl⟩)).symm, hacts'⟩
      · exact .inr ⟨_, .inl ⟨false, false, rfl⟩, hacts'⟩
  · obtain ⟨rfl, ha⟩ := h.leaves_of_rest hacts hin
    refine ⟨hL.exitArg (fun code' ha' => ?_) (h.exitFinish _ code (by simp [hacts])).1, ?_⟩
    · subst ha'
      rcases ha with ⟨iflag, slept, ha⟩ | ⟨iflag, ha⟩ <;> simp at ha
    · rcases ha with ⟨iflag, slept, rfl⟩ | ⟨iflag, rfl⟩
      · rcases hfollows with rfl | rfl
        · exact .inr ⟨_, .inl ⟨iflag, true, rfl⟩, hacts'⟩
        · exact .inr ⟨_, .inr ⟨iflag, rfl⟩, hacts'⟩
      · obtain rfl : acts = [] := hfollows
        exact .inl ⟨(current_eq hs hacts (.inr ⟨_, iflag, rfl⟩)).symm, hacts'⟩

end Resume

/-- A step of the current thread keeps the control. -/
theorem resume_step {memory : Memory} {a : Act} {rest acts : List Act} (h : ExitControl m)
    (hB : m.kernel.ledger.Balanced) (hs : m.Step (.resume memory) m')
    (hacts : m.acts m.current = a :: rest) (hk : a.run memory m.kernel = .ok (acts, m'.kernel))
    (hacts' : m'.acts m.current = acts ++ rest)
    (hL : LedgerStep m.current m.kernel.ledger a acts m'.kernel.ledger) : ExitControl m' := by
  have hfollows := Act.run_follows hk
  -- a thread that is about to exit has not passed a code before
  have hnone : ∀ code, a = .thread (.exit code) → m.kernel.ledger.exitArg m.current = none := by
    rintro code rfl
    exact (h.exit _ code (hacts ▸ List.mem_cons_self)).2
  have hother : ∀ u, u ≠ m.current → m'.acts u = m.acts u :=
    fun u hu => Machine.exec_acts_of_ne hs.2 hu
  constructor
  · intro t code hin
    by_cases ht : t = m.current
    · subst ht
      rw [hacts'] at hin
      rcases List.mem_append.mp hin with hin | hin
      · cases hfollows.leadsTo hin
      · obtain ⟨hone, -⟩ := h.exit _ code (hacts ▸ List.mem_cons_of_mem _ hin)
        obtain ⟨-, rfl⟩ := List.cons.inj (hacts.symm.trans hone)
        simp at hin
    · rw [hother t ht] at hin ⊢
      -- another thread: its code could only come from the current one
      obtain ⟨hone, hno⟩ := h.exit t code hin
      refine ⟨hone, Option.eq_none_iff_forall_ne_some.mpr fun code' hsome => ?_⟩
      rcases hL.exitArg_cases hsome with hold | ⟨hcur, -⟩
      · exact absurd (hno.symm.trans hold) (by simp)
      · exact ht hcur
  · intro t code hin
    by_cases ht : t = m.current
    · subst ht
      exact h.exitFinish_step hs hacts hk hacts' hL hin
    · rw [hother t ht] at hin
      obtain ⟨harg, hleaves⟩ := h.exitFinish t code hin
      refine ⟨hL.exitArg hnone harg, .inr ?_⟩
      obtain ⟨b, hb, htwo⟩ := hleaves.resolve_left fun hc => ht hc.1
      exact ⟨b, hb, by rw [hother t ht, htwo]⟩
  · intro t code hsome
    rcases hL.exitArg_cases hsome with hold | ⟨rfl, rfl⟩
    · rcases h.exited t code hold with hex | hin
      · exact .inl (hL.exited (hB.fresh _ le_rfl) hex)
      · by_cases ht : t = m.current
        · subst ht
          rw [hacts] at hin
          rcases List.mem_cons.mp hin with rfl | hin
          · exact .inl hL.exited_exitFinish
          · -- the end of its `thread_exit` is still to come
            exact .inr (by rw [hacts']; exact List.mem_append_right _ hin)
        · exact .inr (by rwa [hother t ht])
    · right
      rw [hacts']
      rcases hfollows with rfl | rfl <;> simp
  · intro u t code hin
    by_cases hu : u = m.current
    · subst hu
      rw [hacts'] at hin
      rcases List.mem_append.mp hin with hin | hin
      · cases hfollows.leadsTo hin
        -- the code is in the record of the child, which has exited
        obtain ⟨l, hl, hex, rfl⟩ := hL.exitcode_threadJoin hin
        exact hL.exitArg hnone (hB.exited t l hl hex)
      · exact hL.exitArg hnone (h.joinReturn _ t code (hacts ▸ List.mem_cons_of_mem _ hin))
    · rw [hother u hu] at hin
      exact hL.exitArg hnone (h.joinReturn u t code hin)

/-- Every step keeps the control. -/
theorem step (h : ExitControl m) (hB : m.kernel.ledger.Balanced)
    (hr : Reachable Machine.Step boot m) (hs : m.Step e m') : ExitControl m' := by
  rcases hs.ledger hr with ⟨he, hacts, hL⟩ | ⟨a, rfl, hnil, hcall, hacts', hk⟩ |
    ⟨memory, a, rest, acts, rfl, hacts, hk, hacts', hL⟩
  · have harg : m'.kernel.exitArg = m.kernel.exitArg := congrArg Ledger.exitArg hL
    have hlife : m'.kernel.sched.life = m.kernel.sched.life := congrArg Ledger.life hL
    refine ⟨?_, fun t code hin => ?_, ?_, ?_⟩
    · rw [hacts, harg]
      exact h.exit
    · rw [hacts] at hin
      obtain ⟨hsome, hleaves⟩ := h.exitFinish t code hin
      refine ⟨by rwa [harg], .inr ?_⟩
      rw [hacts]
      refine hleaves.resolve_left fun ⟨hcur, hone⟩ => ?_
      rw [hcur] at hone
      exact hs.acts_ne_exitFinish he hone
    · rw [hacts, harg, hlife]
      exact h.exited
    · rw [hacts, harg]
      exact h.joinReturn
  · have hcur : m'.current = m.current := by rw [Machine.current, hk]
    have hother : ∀ u, u ≠ m.current → m'.acts u = m.acts u :=
      fun u hu => Machine.exec_acts_of_ne hs.2 hu
    refine ⟨fun t code hin => ?_, fun t code hin => ?_, fun t code hsome => ?_,
      fun u t code hin => ?_⟩
    · rw [hk]
      by_cases ht : t = m.current
      · subst ht
        rw [hacts'] at hin ⊢
        obtain rfl := List.mem_singleton.mp hin
        refine ⟨rfl, Option.eq_none_iff_forall_ne_some.mpr fun code' hsome => ?_⟩
        rcases h.exited _ code' hsome with hex | hin'
        · exact not_exited hr hex
        · simp [hnil] at hin'
      · rw [hother t ht] at hin ⊢
        exact h.exit t code hin
    · rw [hk]
      by_cases ht : t = m.current
      · subst ht
        rw [hacts'] at hin
        obtain rfl := List.mem_singleton.mp hin
        simp [Act.isCall] at hcall
      · rw [hother t ht] at hin
        obtain ⟨hsome, hleaves⟩ := h.exitFinish t code hin
        refine ⟨hsome, ?_⟩
        rw [Machine.Leaves, hcur, hother t ht]
        exact hleaves
    · rw [hk] at hsome ⊢
      refine (h.exited t code hsome).imp_right fun hin => ?_
      have ht : t ≠ m.current := by
        rintro rfl
        simp [hnil] at hin
      rwa [hother t ht]
    · rw [hk]
      by_cases hu : u = m.current
      · subst hu
        rw [hacts'] at hin
        obtain rfl := List.mem_singleton.mp hin
        simp [Act.isCall] at hcall
      · rw [hother u hu] at hin
        exact h.joinReturn u t code hin
  · exact h.resume_step hB hs hacts hk hacts' hL

end ExitControl

/-- The control gives what a step of a balanced ledger needs. -/
theorem Ledger.Balanced.machine_step {m m' : Machine} {e : Event}
    (hB : m.kernel.ledger.Balanced) (h : ExitControl m) (hr : Reachable Machine.Step boot m)
    (hs : m.Step e m') : m'.kernel.ledger.Balanced := by
  rcases hs.ledger hr with ⟨-, -, hL⟩ | ⟨a, -, -, -, -, hk⟩ |
    ⟨memory, a, rest, acts, -, hacts, -, -, hL⟩
  · rwa [hL]
  · rwa [hk]
  · have hin : a ∈ m.acts m.current := hacts ▸ List.mem_cons_self
    refine hB.step hL ?_ ?_ ?_
    · rintro code rfl
      exact (h.exit _ code hin).2
    · rintro code rfl
      exact (h.exitFinish _ code hin).1
    · rintro t code rfl
      exact h.joinReturn _ t code hin

/-- The threads of the initialisation are detached and run. -/
theorem boot_life {t : ThreadId} {l : Life} (hl : boot.kernel.ledger.life t = some l) :
    l = { parent := none, refcount := 1, exitcode := 0, exited := false } := by
  have hlt : t < 3 := by
    by_contra hle
    have hnone := (reachable_placed (.refl boot)).fresh t (not_lt.mp hle)
    change (boot.kernel.sched.threads t).map Thread.life = some l at hl
    simp [hnone] at hl
  have hall : ∀ t < 3, boot.kernel.ledger.life t =
      some { parent := none, refcount := 1, exitcode := 0, exited := false } := by decide
  exact Option.some.inj (hl.symm.trans (hall t hlt))

theorem balanced_boot : boot.kernel.ledger.Balanced where
  fresh t ht := by
    change (boot.kernel.sched.threads t).map Thread.life = none
    rw [(reachable_placed (.refl boot)).fresh t ht, Option.map_none]
  unborn t _ := ⟨rfl, List.not_mem_nil⟩
  refcount t l hl := by
    rw [boot_life hl]
    rfl
  nodup := List.nodup_nil
  scheduled t := by
    refine iff_of_false List.not_mem_nil ?_
    rintro ⟨l, hl, hzero⟩
    simp [boot_life hl] at hzero
  exited t l hl hex := by simp [boot_life hl] at hex
  returned t code ht := absurd ht List.not_mem_nil

theorem exitControl_boot : ExitControl boot := by
  refine ⟨fun t code hin => ?_, fun t code hin => ?_, fun t code hsome => ?_,
    fun u t code hin => ?_⟩
  · rcases mem_boot_acts hin with h | h <;> simp at h
  · rcases mem_boot_acts hin with h | h <;> simp at h
  · simp [boot] at hsome
  · rcases mem_boot_acts hin with h | h <;> simp at h

section Reachable

variable {m : Machine} (h : Reachable Machine.Step boot m)
include h

theorem reachable_balanced_exitControl : m.kernel.ledger.Balanced ∧ ExitControl m := by
  have hI : Reachable Machine.Step boot m ∧ m.kernel.ledger.Balanced ∧ ExitControl m :=
    h.invariant (I := fun m => Reachable Machine.Step boot m ∧ m.kernel.ledger.Balanced ∧
      ExitControl m) ⟨.refl _, balanced_boot, exitControl_boot⟩ fun _ _ _ hI hs =>
        ⟨hI.1.tail hs, hI.2.1.machine_step hI.2.2 hI.1 hs, hI.2.2.step hI.2.1 hI.1 hs⟩
  exact hI.2

/-- `refcount` counts the holders of a thread, and the destruction is scheduled when there is none
left. -/
theorem reachable_balanced : m.kernel.ledger.Balanced := (reachable_balanced_exitControl h).1

theorem reachable_exitControl : ExitControl m := (reachable_balanced_exitControl h).2

end Reachable

end GeekOS
