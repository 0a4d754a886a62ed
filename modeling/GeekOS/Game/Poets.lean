import GeekOS.Game.Poetry
import GeekOS.Kernel.Mutex

/-!
# The poets

The threads of the mutex simulation of `job.c` go through `mutex_poet` on the kernel: they call
`mutex_lock`, write their poem and call `mutex_unlock`, and the timer may take the CPU from them
between any two of their steps.

* `Poet.next`, `Step`: the code of a poet, and the kernel with poets as threads;
* `Machine.Locks`, `Machine.Holds`: what a poet knows in front of the section and inside;
* `Refines`: the poets are in the critical section of `Poetry.code`, one at a time;
* `poems_of_run`: so their poems are whole.
-/

namespace GeekOS

open Result TransitionSystem

namespace Poetry

/-! ## The code of a poet -/

/-- Where a thread is in `mutex_poet`. -/
inductive Poet
  /-- In front of `first_response`. -/
  | start
  /-- In front of `mutex_lock`. -/
  | lock
  /-- In `mutex_lock` or in `write_poem`. -/
  | writing (l : Local)
  /-- In `mutex_unlock`, or in front of `thread_exit`. -/
  | exit
  /-- In `thread_exit`. -/
  | gone
  deriving DecidableEq

/-- The function of the kernel that a poet calls next, and where it goes on. -/
def Poet.next (x : MutexId) : Poet → Option (Act × Poet)
  | .start => some (.simulation .firstResponse, .lock)
  | .lock => some (.synch (.mutexLock x), .writing { todo := writePoem })
  | .writing l =>
      match l.todo with
      | [] => some (.synch (.mutexUnlock x), .exit)
      | .busyWait :: rest => some (.simulation (.busyWait jobDelay), .writing { l with todo := rest })
      | _ => none
  | .exit => some (.thread (.exit 42), .gone)
  | .gone => none

/-- The kernel, the data of `poetry.c`, and the threads that are poets. -/
structure Poets where
  machine : Machine
  data : Data
  poet : ThreadId → Option Poet

/-- The current thread. -/
abbrev Poets.current (s : Poets) : ThreadId := s.machine.current

/-- What the system does: something happens in the kernel, or the current thread takes a small step
of its own code. -/
inductive Action
  | kernel (e : Event)
  | body
  deriving DecidableEq

/-- The steps of the system. Threads that are no poets call what they like. -/
inductive Step (gRand : Fin numRand → ℕ) (x : MutexId) : Poets → Action → Poets → Prop
  | kernel {s : Poets} {e : Event} {m' : Machine} (he : ∀ a, e ≠ .call a)
      (h : s.machine.Step e m') : Step gRand x s (.kernel e) { s with machine := m' }
  | other {s : Poets} {a : Act} {m' : Machine} (hs : s.poet s.current = none)
      (h : s.machine.Step (.call a) m') :
      Step gRand x s (.kernel (.call a)) { s with machine := m' }
  | call {s : Poets} {p p' : Poet} {a : Act} {m' : Machine} (hs : s.poet s.current = some p)
      (hp : p.next x = some (a, p')) (h : s.machine.Step (.call a) m') :
      Step gRand x s (.kernel (.call a))
        { s with machine := m', poet := Function.update s.poet s.current (some p') }
  | body {s : Poets} {l l' : Local} {d' : Data} (hs : s.poet s.current = some (.writing l))
      (hidle : s.machine.acts s.current = []) (hp : (Poet.writing l).next x = none)
      (h : body gRand s.current l s.data = some (l', d')) :
      Step gRand x s .body
        { s with data := d', poet := Function.update s.poet s.current (some (.writing l')) }

end Poetry

/-! ## The mutex -/

/-- The act is one of `mutex_lock(x)`. -/
def SynchAct.locks (x : MutexId) : SynchAct → Prop
  | .mutexLock y => y = x
  | .lockImp y caller | .lockTest y caller | .lockPark y caller | .lockParked y caller
  | .lockState y caller | .lockOwner y caller | .lockReturn y caller => y = x ∧ caller = .mutex
  | _ => False

section SynchStep

variable {k k' : Kernel} {a : SynchAct} {acts : List Act} {x : MutexId} {t : ThreadId}

/-- An act of `mutex_lock` leads to another one, or it is the last, and the thread has the mutex. -/
theorem SynchStep.locks (h : SynchStep k a acts k') (ha : a.locks x) :
    (∃ b, acts = [.synch b] ∧ b.locks x) ∨ acts = [] ∧ k.current ∈ k'.holders x := by
  cases h with
  | mutexLock y =>
    obtain rfl := ha
    exact .inl ⟨_, rfl, rfl, rfl⟩
  | lockImp | lockBusy | lockFree | lockPark | lockParked | lockState | lockOwner =>
    exact .inl ⟨_, rfl, ha⟩
  | lockReturn y caller =>
    obtain ⟨rfl, -⟩ := ha
    exact .inr ⟨rfl, Kernel.mem_hold.mpr (.inr ⟨rfl, rfl⟩)⟩
  | mutexUnlock | unlockImp | unlockState | unlockOwner | unlockAlone | unlockWaited | unlockWake
  | unlockReturn | condWait | condPark | condParked | condSignal | condBroadcast => exact ha.elim

/-- Nobody else takes a mutex away. -/
theorem SynchStep.mem_holders (h : SynchStep k a acts k') (ht : t ≠ k.current)
    (hmem : t ∈ k.holders x) : t ∈ k'.holders x := by
  cases h with
  | lockReturn y caller => exact Kernel.mem_hold.mpr (.inl hmem)
  | mutexUnlock y | condWait => exact Kernel.mem_unhold.mpr ⟨hmem, fun h => ht h.1⟩
  | _ => exact hmem

end SynchStep

namespace Machine

variable {m m' : Machine} {e : Event} {x : MutexId} {t : ThreadId}

/-- The thread is in `mutex_lock(x)`. -/
def Locks (m : Machine) (x : MutexId) (t : ThreadId) : Prop :=
  ∃ a, m.acts t = [.synch a] ∧ a.locks x

/-- The thread has the mutex, and is in no function of `synch.c`. -/
def Holds (m : Machine) (x : MutexId) (t : ThreadId) : Prop :=
  t ∈ m.kernel.holders x ∧ ∀ a, .synch a ∉ m.acts t

theorem Holds.not_locks (h : m.Holds x t) : ¬m.Locks x t := by
  rintro ⟨a, ha, -⟩
  exact h.2 a (ha ▸ List.mem_cons_self)

/-- At most one thread has a mutex. -/
theorem holders_unique {u : ThreadId} (hr : Reachable Machine.Step boot m)
    (ht : t ∈ m.kernel.holders x) (hu : u ∈ m.kernel.holders x) : t = u := by
  have hsafe := reachable_mutexSafe hr
  have heq := (hsafe.holder x t ht).symm.trans (hsafe.holder x u hu)
  simpa using heq

/-- A thread keeps a mutex as long as it does not call a function of `synch.c`. -/
theorem Holds.step (h : m.Holds x t) (hc : SynchControl m) (hs : m.Step e m')
    (hcall : ∀ a, e = .call (.synch a) → t ≠ m.current) : m'.Holds x t := by
  have hacts : ∀ a, .synch a ∉ m'.acts t := by
    intro a ha
    rcases mem_acts_of_step hs ha with ha | ⟨rfl, -, -, rfl⟩ |
      ⟨rfl, memory, b, rest, acts, k', -, hb, hk, -, ha⟩
    · exact h.2 a ha
    · exact hcall a rfl rfl
    · refine Act.not_follows_synch ?_ (Act.run_follows hk) ha
      cases b with
      | synch b => exact absurd (hb ▸ List.mem_cons_self) (h.2 b)
      | _ => rfl
  refine ⟨?_, hacts⟩
  cases hc.step_cases hs with
  | interrupt he hacts hsame => exact hsame.holders ▸ h.1
  | other hbefore hafter hsame => exact hsame.holders ▸ h.1
  | @synch a acts k' hsynch hstep hacts' hk =>
    rw [hk]
    refine hstep.mem_holders ?_ h.1
    rintro rfl
    exact h.2 a (hsynch ▸ List.mem_cons_self)

/-- A thread goes on in `mutex_lock`, or it returns with the mutex. -/
theorem Locks.step (h : m.Locks x t) (hc : SynchControl m) (hs : m.Step e m') :
    m'.Locks x t ∨ m'.acts t = [] ∧ t ∈ m'.kernel.holders x := by
  obtain ⟨a, ha, hlocks⟩ := h
  by_cases ht : t = m.current
  · subst ht
    cases hc.step_cases hs with
    | interrupt he hacts hsame => exact .inl ⟨a, by rw [hacts, ha], hlocks⟩
    | other hbefore hafter hsame => exact absurd (ha ▸ List.mem_cons_self) (hbefore a)
    | @synch b acts k' hsynch hstep hacts' hk =>
      obtain rfl : a = b := by simpa [ha] using hsynch
      rw [Locks, hacts', hk]
      exact hstep.locks hlocks
  · exact .inl ⟨a, by rw [exec_acts_of_ne hs.2 ht, ha], hlocks⟩

end Machine

namespace Poetry

/-! ## The critical section -/

/-- The poet has left `write_poem`. -/
def Poet.isPast : Poet → Bool
  | .exit | .gone => true
  | _ => false

/-- The poets are in the critical section one at a time: the one inside has the mutex, and those
that do not are still in `mutex_lock`. -/
structure Refines (x : MutexId) (s : Poets) (a : CriticalSection.State ThreadId Local Data) :
    Prop where
  reachable : Reachable Machine.Step boot s.machine
  data : a.data = s.data
  inside : ∀ t l, a.inside = some (t, l) → s.poet t = some (.writing l) ∧ s.machine.Holds x t
  writing : ∀ t l, s.poet t = some (.writing l) →
    a.inside = some (t, l) ∨ l = { todo := writePoem } ∧ s.machine.Locks x t
  nodup : a.left.Nodup
  left : ∀ t, t ∈ a.left ↔ ∃ p, s.poet t = some p ∧ p.isPast = true

namespace Refines

variable (gRand : Fin numRand → ℕ) {x : MutexId} {s : Poets} {e : Event} {m' : Machine}
  {a : CriticalSection.State ThreadId Local Data}

/-- A poet that has returned from `mutex_lock` is inside. -/
theorem inside_of_idle {l : Local} (h : Refines x s a) (hs : s.poet s.current = some (.writing l))
    (hidle : s.machine.acts s.current = []) : a.inside = some (s.current, l) := by
  rcases h.writing _ l hs with hin | ⟨-, b, hb, -⟩
  · exact hin
  · exact absurd (hb.symm.trans hidle) (List.cons_ne_nil _ _)

/-- When something happens in the kernel, a poet may enter. -/
theorem machine (h : Refines x s a) (hs : s.machine.Step e m')
    (hcall : ∀ t l, s.poet t = some (.writing l) → ∀ b, e = .call (.synch b) → t ≠ s.current) :
    ∃ a', Refines x { s with machine := m' } a' ∧
      Relation.ReflTransGen (CriticalSection.Step (code gRand)) a a' := by
  have hc := reachable_synchControl h.reachable
  have hr := h.reachable.tail hs
  have hholds : ∀ t l, a.inside = some (t, l) → m'.Holds x t := fun t l hin =>
    (h.inside t l hin).2.step hc hs (hcall t l (h.inside t l hin).1)
  by_cases hex : ∃ t l, s.poet t = some (.writing l) ∧ s.machine.Locks x t ∧ ¬m'.Locks x t
  · obtain ⟨t, l, ht, hlocks, hnot⟩ := hex
    obtain ⟨hidle, hmem⟩ := (hlocks.step hc hs).resolve_left hnot
    obtain ⟨rfl, -⟩ := (h.writing t l ht).resolve_left
      fun hin => (h.inside t l hin).2.not_locks hlocks
    -- the mutex has one holder, so nobody is inside yet
    have hnone : a.inside = none := by
      rw [Option.eq_none_iff_forall_ne_some]
      rintro ⟨u, l⟩ hin
      obtain rfl := Machine.holders_unique hr (hholds u l hin).1 hmem
      exact (h.inside u l hin).2.not_locks hlocks
    obtain ⟨data, inside, left⟩ := a
    obtain rfl : inside = none := hnone
    refine ⟨⟨data, some (t, { todo := writePoem }), left⟩, ?_, .single (.enter t data left)⟩
    refine ⟨hr, h.data, ?_, ?_, h.nodup, h.left⟩
    · intro u l hin
      obtain ⟨rfl, rfl⟩ := by simpa using hin
      exact ⟨ht, hmem, by simp [hidle]⟩
    · intro u l hu
      by_cases hut : u = t
      · subst hut
        obtain rfl : { todo := writePoem } = l := by simpa [ht] using hu
        exact .inl rfl
      · obtain ⟨rfl, hwaits⟩ := (h.writing u l hu).resolve_left (by simp)
        refine .inr ⟨rfl, ?_⟩
        rcases hwaits.step hc hs with hwaits | ⟨-, hu⟩
        · exact hwaits
        · exact absurd (Machine.holders_unique hr hu hmem) hut
  -- nobody has come out of `mutex_lock`, and the section is where it was
  · refine ⟨a, ⟨hr, h.data, ?_, ?_, h.nodup, h.left⟩, .refl⟩
    · exact fun t l hin => ⟨(h.inside t l hin).1, hholds t l hin⟩
    · intro t l ht
      obtain hin | ⟨hl, hlocks⟩ := h.writing t l ht
      · exact .inl hin
      · refine .inr ⟨hl, ?_⟩
        by_contra hnot
        exact hex ⟨t, l, ht, hlocks, hnot⟩

/-- The poet inside takes a step. -/
theorem body {l l' : Local} {d' : Data} (h : Refines x s a)
    (hs : s.poet s.current = some (.writing l)) (hidle : s.machine.acts s.current = [])
    (hbody : Poetry.body gRand s.current l s.data = some (l', d')) :
    ∃ a', Refines x { s with
        data := d', poet := Function.update s.poet s.current (some (.writing l')) } a' ∧
      Relation.ReflTransGen (CriticalSection.Step (code gRand)) a a' := by
  have hin := h.inside_of_idle hs hidle
  obtain ⟨data, inside, left⟩ := a
  obtain rfl : inside = some (s.current, l) := hin
  obtain rfl : data = s.data := h.data
  -- the section takes the same step, and the other poets stand where they stood
  refine ⟨⟨d', some (s.current, l'), left⟩, ⟨h.reachable, rfl, ?_, ?_, h.nodup, ?_⟩,
    .single (.body hbody)⟩
  · intro t l hin
    obtain ⟨rfl, rfl⟩ := by simpa using hin
    exact ⟨Function.update_self .., (h.inside _ _ rfl).2⟩
  · intro t k ht
    by_cases hcur : t = s.current
    · subst hcur
      obtain rfl : l' = k := by simpa using ht
      exact .inl rfl
    · have hwrites : s.poet t = some (.writing k) := by
        simpa [Function.update_of_ne hcur] using ht
      refine .inr ((h.writing t k hwrites).resolve_left ?_)
      simpa using fun heq => absurd heq.symm hcur
  · intro t
    by_cases hcur : t = s.current
    · subst hcur
      simp [h.left, hs, Poet.isPast]
    · simp [h.left, Function.update_of_ne hcur]

/-- The poet inside leaves. -/
theorem leave {l : Local} (h : Refines x s a) (hs : s.poet s.current = some (.writing l))
    (hidle : s.machine.acts s.current = []) (hend : l.todo = []) :
    ∃ a', Refines x { s with poet := Function.update s.poet s.current (some .exit) } a' ∧
      Relation.ReflTransGen (CriticalSection.Step (code gRand)) a a' := by
  have hin := h.inside_of_idle hs hidle
  obtain ⟨data, inside, left⟩ := a
  obtain rfl : inside = some (s.current, l) := hin
  have hbody : (code gRand).body s.current l data = none := by
    simp [code, Poetry.body, hend]
  refine ⟨⟨data, none, left ++ [s.current]⟩, ⟨h.reachable, h.data, ?_, ?_, ?_, ?_⟩,
    .single (.leave hbody)⟩
  · intro t l hin
    exact absurd hin (Option.some_ne_none _).symm
  · intro t k ht
    by_cases hcur : t = s.current
    · subst hcur
      simp at ht
    · have hwrites : s.poet t = some (.writing k) := by
        simpa [Function.update_of_ne hcur] using ht
      refine .inr ((h.writing t k hwrites).resolve_left ?_)
      simpa using fun heq => absurd heq.symm hcur
  · -- who leaves has not left before: it was writing
    refine List.nodup_append.mpr ⟨h.nodup, List.nodup_singleton _, ?_⟩
    intro t ht u hu heq
    obtain rfl := List.mem_singleton.mp hu
    obtain ⟨p, hp, hpast⟩ := (h.left t).mp ht
    obtain rfl : Poet.writing l = p := by simpa [heq, hs] using hp
    exact absurd hpast (by simp [Poet.isPast])
  · intro t
    by_cases hcur : t = s.current
    · subst hcur
      simp [Poet.isPast]
    · have hleft := h.left t
      simpa [Function.update_of_ne hcur, hcur] using hleft

/-- A poet goes on outside the section. -/
theorem outside {p p' : Poet} (h : Refines x s a) (hs : s.poet s.current = some p)
    (hp : ∀ l, p ≠ .writing l) (hp' : ∀ l, p' = .writing l →
      l = { todo := writePoem } ∧ s.machine.Locks x s.current) (hpast : p'.isPast = p.isPast) :
    Refines x { s with poet := Function.update s.poet s.current (some p') } a := by
  have hne : ∀ l, a.inside ≠ some (s.current, l) := by
    intro l hin
    have hwrites := (h.inside _ l hin).1
    exact hp l (Option.some.inj (hs.symm.trans hwrites))
  refine ⟨h.reachable, h.data, ?_, ?_, h.nodup, ?_⟩
  · intro t l hin
    have hcur : t ≠ s.current := fun heq => hne l (heq ▸ hin)
    simpa [Function.update_of_ne hcur] using h.inside t l hin
  · intro t l ht
    by_cases hcur : t = s.current
    · subst hcur
      obtain rfl : p' = .writing l := by simpa using ht
      exact .inr (hp' l rfl)
    · exact h.writing t l (by simpa [Function.update_of_ne hcur] using ht)
  · intro t
    by_cases hcur : t = s.current
    · subst hcur
      simp [h.left, hs, hpast]
    · simp [h.left, Function.update_of_ne hcur]

/-- Every step of the system is a step of the critical section, or two, or none. -/
theorem step {s' : Poets} {e : Action} (h : Refines x s a) (hs : Step gRand x s e s') :
    ∃ a', Refines x s' a' ∧ Relation.ReflTransGen (CriticalSection.Step (code gRand)) a a' := by
  cases hs with
  | kernel he hs => exact h.machine gRand hs fun t l ht b hb => absurd hb (he _)
  | other hnone hs =>
    refine h.machine gRand hs fun t l ht b hb heq => ?_
    rw [heq, hnone] at ht
    exact Option.some_ne_none _ ht.symm
  | body hwrites hidle hp hbody => exact h.body gRand hwrites hidle hbody
  | @call p p' b m' hpoet hp hs =>
    have hidle : s.machine.acts s.current = [] := hs.1.1
    cases p with
    | start =>
      obtain ⟨rfl, rfl⟩ := by simpa [Poet.next] using hp
      have h₁ : Refines x { s with poet := Function.update s.poet s.current (some .lock) } a :=
        h.outside hpoet (by simp) (by simp) rfl
      exact h₁.machine gRand hs (by simp)
    | lock =>
      obtain ⟨rfl, rfl⟩ := by simpa [Poet.next] using hp
      -- the poet has called `mutex_lock`, and is outside until it returns
      obtain ⟨a', h', hsteps⟩ := h.machine gRand hs fun t l ht b hb heq => by
        simp [heq, hpoet] at ht
      obtain rfl := pure_eq_ok.mp hs.2
      refine ⟨a', h'.outside hpoet (by simp) ?_ rfl, hsteps⟩
      intro l hl
      obtain rfl : { todo := writePoem } = l := by simpa using hl
      exact ⟨rfl, _, Function.update_self .., rfl⟩
    | writing l =>
      rw [Poet.next] at hp
      split at hp
      next hend =>
        -- the poet leaves before its call, as far as the section is concerned
        obtain ⟨rfl, rfl⟩ := by simpa using hp
        obtain ⟨a₁, h₁, hleave⟩ := h.leave gRand hpoet hidle hend
        obtain ⟨a₂, h₂, hsteps⟩ := h₁.machine gRand hs fun t l ht b hb heq => by
          simp [heq] at ht
        exact ⟨a₂, h₂, hleave.trans hsteps⟩
      next rest hwait =>
        obtain ⟨rfl, rfl⟩ := by simpa using hp
        -- a wait in the section is a step of its own that changes no data
        have hbody : Poetry.body gRand s.current l s.data =
            some ({ l with todo := rest }, s.data) := by
          simp [Poetry.body, hwait]
        obtain ⟨a₁, h₁, hgo⟩ := h.body gRand hpoet hidle hbody
        obtain ⟨a₂, h₂, hsteps⟩ := h₁.machine gRand hs (by simp)
        exact ⟨a₂, h₂, hgo.trans hsteps⟩
      next => exact absurd hp (Option.some_ne_none _).symm
    | exit =>
      obtain ⟨rfl, rfl⟩ := by simpa [Poet.next] using hp
      have h₁ : Refines x { s with poet := Function.update s.poet s.current (some .gone) } a :=
        h.outside hpoet (by simp) (by simp) rfl
      exact h₁.machine gRand hs (by simp)
    | gone => exact absurd hp (Option.some_ne_none _).symm

end Refines

/-- In every run of poets on the kernel, from a state in which none of them has begun: what has
been printed is the poems of those that have left `write_poem`, one after the other and each of
them whole, and a part of at most one more. The words of each poem are those that `next_rand` would
choose if there were no other threads. -/
theorem poems_of_run {gRand : Fin numRand → ℕ} {x : MutexId} {s₀ s : Poets}
    {tr : List (Poets × Action)} (hr : Reachable Machine.Step boot s₀.machine)
    (h₀ : ∀ t p, s₀.poet t = some p → p = .start) (h : Run (Step gRand x) s₀ tr s) :
    ∃ authors : List ThreadId, authors.Nodup ∧
      (∀ t, t ∈ authors ↔ ∃ p, s.poet t = some p ∧ p.isPast = true) ∧
      s₀.data.output ++ poems gRand authors s₀.data.i <+: s.data.output ∧
      ((∀ t l, s.poet t ≠ some (.writing l)) →
        s.data.output = s₀.data.output ++ poems gRand authors s₀.data.i) ∧
      ∃ t, s.data.output <+: s₀.data.output ++ poems gRand (authors ++ [t]) s₀.data.i := by
  -- at the start nobody is inside and nobody has left
  have hstart : Refines x s₀ ⟨s₀.data, none, []⟩ := by
    refine ⟨hr, rfl, ?_, ?_, List.nodup_nil, ?_⟩
    · exact fun t l hin => absurd hin (Option.some_ne_none _).symm
    · exact fun t l ht => absurd (h₀ t _ ht) (by simp)
    · intro t
      refine ⟨fun ht => absurd ht List.not_mem_nil, ?_⟩
      rintro ⟨p, hp, hpast⟩
      rw [h₀ t p hp] at hpast
      exact absurd hpast (by simp [Poet.isPast])
  have hsim : ∃ a, Refines x s a ∧
      Relation.ReflTransGen (CriticalSection.Step (code gRand)) ⟨s₀.data, none, []⟩ a :=
    h.simulation hstart fun _ _ _ _ hR hs => hR.step gRand hs
  obtain ⟨a, ha, hsteps⟩ := hsim
  -- the section without a lock has the poems in the order of leaving
  have hserial : (code gRand).Serializable s₀.data a :=
    CriticalSection.Code.Serializable.steps ⟨s₀.data, .nil, rfl⟩ hsteps
  obtain ⟨hpre, hnone, t, hpost⟩ := serializable_output hserial
  rw [ha.data] at hpre hnone hpost
  refine ⟨a.left, ha.nodup, ha.left, hpre, fun hout => hnone ?_, t, hpost⟩
  rw [Option.eq_none_iff_forall_ne_some]
  rintro ⟨t, l⟩ hin
  exact hout t l (ha.inside t l hin).1

/-- A thread that is no poet does not become one. -/
theorem poet_eq_none_of_run {gRand : Fin numRand → ℕ} {x : MutexId} {s₀ s : Poets}
    {tr : List (Poets × Action)} (h : Run (Step gRand x) s₀ tr s) {t : ThreadId}
    (h₀ : s₀.poet t = none) : s.poet t = none := by
  refine h.invariant (I := fun s => s.poet t = none) h₀ fun s a s' hI hs => ?_
  have hne : ∀ p, s.poet s.current = some p → t ≠ s.current := by
    rintro p hp rfl
    rw [hI] at hp
    exact absurd hp.symm (Option.some_ne_none p)
  cases hs with
  | kernel | other => exact hI
  | call hpoet | body hpoet =>
    exact (Function.update_of_ne (hne _ hpoet) _ _).trans hI

/-- The machine behind an event, if the event can come and does not fail. -/
def Poets.next (s : Poets) (e : Event) : Option Machine :=
  if s.machine.Enabled e then
    match s.machine.exec e with
    | .ok m => some m
    | .error _ => none
  else none

/-- Carry out a step of the system, if it can come. -/
def Poets.exec (gRand : Fin numRand → ℕ) (x : MutexId) (s : Poets) : Action → Option Poets
  | .kernel (.call a) =>
      match s.poet s.current with
      | none => (s.next (.call a)).map fun machine => { s with machine }
      | some p =>
          match p.next x with
          | none => none
          | some (a', p') =>
              if a = a' then (s.next (.call a)).map fun machine =>
                { s with machine, poet := Function.update s.poet s.current (some p') }
              else none
  | .kernel e => (s.next e).map fun machine => { s with machine }
  | .body =>
      match s.poet s.current with
      | some (.writing l) =>
          if s.machine.acts s.current = [] ∧ (Poet.writing l).next x = none then
            (body gRand s.current l s.data).map fun r =>
              { s with data := r.2, poet := Function.update s.poet s.current (some (.writing r.1)) }
          else none
      | _ => none

theorem step_of_next {s : Poets} {e : Event} {m : Machine} (h : s.next e = some m) :
    s.machine.Step e m := by
  rw [Poets.next, Option.ite_none_right_eq_some] at h
  obtain ⟨henabled, h⟩ := h
  cases hexec : s.machine.exec e with
  | error f => simp [hexec] at h
  | ok m' =>
    obtain rfl : m' = m := by simpa [hexec] using h
    exact ⟨henabled, hexec⟩

theorem step_of_exec {gRand : Fin numRand → ℕ} {x : MutexId} {s s' : Poets} {a : Action}
    (h : s.exec gRand x a = some s') : Step gRand x s a s' := by
  cases a with
  | kernel e =>
    cases e with
    | call a =>
      rw [Poets.exec] at h
      cases hpoet : s.poet s.current with
      | none =>
        rw [hpoet] at h
        -- a thread that is no poet may call whatever it likes
        obtain ⟨m, hm, rfl⟩ := Option.map_eq_some_iff.mp h
        exact .other hpoet (step_of_next hm)
      | some p =>
        rw [hpoet] at h
        cases hnext : p.next x with
        | none => simp [hnext] at h
        | some r =>
          obtain ⟨a', p'⟩ := r
          simp only [hnext, Option.ite_none_right_eq_some] at h
          obtain ⟨rfl, h⟩ := h
          obtain ⟨m, hm, rfl⟩ := Option.map_eq_some_iff.mp h
          exact .call hpoet hnext (step_of_next hm)
    | resume | timer | keyboard =>
      obtain ⟨m, hm, rfl⟩ := Option.map_eq_some_iff.mp h
      exact .kernel (by simp) (step_of_next hm)
  | body =>
    rw [Poets.exec] at h
    split at h
    next l hpoet =>
      obtain ⟨⟨hidle, hnext⟩, h⟩ := Option.ite_none_right_eq_some.mp h
      obtain ⟨r, hbody, rfl⟩ := Option.map_eq_some_iff.mp h
      exact .body hpoet hidle hnext hbody
    next => exact absurd h.symm (Option.some_ne_none _)

/-- The main thread submits two jobs and waits for the first one, which gets the CPU. -/
def submitPoets : List Event :=
  .call (.simulation (.setScheduler .rr 32)) :: Machine.resume 1 ++
    Machine.call (.simulation (.runSimulation [⟨10, 1⟩, ⟨10, 1⟩])) 18

/-- The jobs are poets. -/
def twoPoets : Poets where
  machine := Machine.after submitPoets
  data := { poem := fun f => Vector.replicate f.length '\x00', i := 0, output := [] }
  poet t := if t = 3 ∨ t = 4 then some .start else none

/-- The first poet locks the mutex and plans its poem. Behind two letters of its first word the time
slice is over. -/
def firstSlice : List Action :=
  (Machine.call (.simulation .firstResponse) 1 ++ Machine.call (.synch (.mutexLock 0)) 6 ++
    (List.replicate 3 (Machine.call (.simulation (.busyWait jobDelay)) 2 ++
      List.replicate 10 Event.timer ++ Machine.resume 1)).flatten).map .kernel ++
  List.replicate 4 .body ++ List.replicate 3 (.kernel .timer)

/-- The second poet goes to sleep in `mutex_lock`, and the first one goes on with its word. It has
printed two words at the end. -/
def secondSlice : List Action :=
  (Machine.call (.simulation .firstResponse) 1 ++ Machine.call (.synch (.mutexLock 0)) 7).map
    .kernel ++ List.replicate 59 .body

/-- The law above behind these slices: the first poet has been preempted in its first word, and the
second one waits for the mutex, but the words are those that the first one has chosen. -/
theorem poems_twoSlices : ∃ tr s, Run (Step (fun _ => 0) 0) twoPoets tr s ∧
    4 ∈ s.machine.kernel.sched.queue (.wait (.mutex 0)) ∧
    s.data.output = [(3, "Roses".toList), (3, "red".toList)] ∧
    ∃ t, s.data.output <+: poems (fun _ => 0) [t] 0 := by
  have hsome : ((firstSlice ++ secondSlice).foldlM (Poets.exec (fun _ => 0) 0) twoPoets).any fun s =>
      4 ∈ s.machine.kernel.sched.queue (.wait (.mutex 0)) ∧
        s.data.output = [(3, "Roses".toList), (3, "red".toList)] ∧
        ∀ t ∈ [3, 4], ∀ p ∈ s.poet t, p.isPast = false := by decide +kernel
  obtain ⟨s, hs, hend⟩ := (Option.any_eq_true _ _).mp hsome
  rw [decide_eq_true_iff] at hend
  obtain ⟨hasleep, houtput, hpast⟩ := hend
  have hrun : ∃ tr, Run (Step (fun _ => 0) 0) twoPoets tr s :=
    exists_run_foldlM (fun _ _ _ h => step_of_exec h) hs
  obtain ⟨tr, hrun⟩ := hrun
  have hstart : ∀ t p, twoPoets.poet t = some p → p = .start := by
    intro t p hp
    obtain ⟨-, hp⟩ := Option.ite_none_right_eq_some.mp hp
    exact (Option.some.inj hp).symm
  have hsubmit : (boot.runs submitPoets).isSome := by decide
  have hreach : Reachable Machine.Step boot twoPoets.machine := Machine.reachable_after hsubmit
  obtain ⟨authors, -, hauthors, -, -, t, ht⟩ := poems_of_run hreach hstart hrun
  -- nobody has left `write_poem` yet
  obtain rfl : authors = [] := by
    rw [List.eq_nil_iff_forall_not_mem]
    intro u hu
    obtain ⟨p, hp, hleft⟩ := (hauthors u).mp hu
    by_cases hmem : u ∈ [3, 4]
    · rw [hpast u hmem p hp] at hleft
      exact absurd hleft Bool.false_ne_true
    · have hnone : twoPoets.poet u = none := if_neg (by simpa using hmem)
      rw [poet_eq_none_of_run hrun hnone] at hp
      exact absurd hp.symm (Option.some_ne_none p)
  exact ⟨tr, s, hrun, hasleep, houtput, t, ht⟩

end Poetry

end GeekOS
