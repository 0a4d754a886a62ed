import GeekOS.Library.Progress
import GeekOS.Game.Peterson

/-!
# Progress in Peterson's solution

The two threads of `GeekOS.Game.Peterson` do not only keep each other out of the critical section;
each that wants to enter it does. The thread that waits is overtaken once at most while it is in
the loop: the other one can pass only if it was given the turn, and gives the turn away when it
comes back.

* `peterson_boundedWaiting`: how often the other thread enters while one waits;
* `peterson_enters`: a thread that has called `peterson` comes to its critical section.
-/

namespace GeekOS.Game

open TransitionSystem

namespace PetersonPc

/-- On the way to `critical_section`, with the flag set. -/
def waits (pc : PetersonPc) : Bool := pc == setTurn || pc.inLoop

/-- The thread is in its own code, which may keep it for ever: outside of `peterson`, or in
`remainder_section`. -/
def mayStay : PetersonPc → Bool
  | outside | remainderSection => true
  | _ => false

/-- How far a thread with its flag set is from giving up either the flag or the turn. -/
def ahead : PetersonPc → ℕ
  | testFlag => 10
  | testTurn => 9
  | criticalSection => 8
  | clearFlag => 7
  | _ => 4

/-- Called, and not yet in `critical_section`. -/
def tries (pc : PetersonPc) : Bool := pc == setFlag || pc.waits

variable {pc : PetersonPc}

theorem inLoop_iff : pc.inLoop = true ↔ pc = testFlag ∨ pc = testTurn := by
  cases pc <;> decide

theorem waits_iff : pc.waits = true ↔ pc = setTurn ∨ pc = testFlag ∨ pc = testTurn := by
  cases pc <;> decide

theorem tries_iff :
    pc.tries = true ↔ pc = setFlag ∨ pc = setTurn ∨ pc = testFlag ∨ pc = testTurn := by
  cases pc <;> decide

theorem flagSet_of_waits (h : pc.waits = true) : pc.flagSet = true := by
  revert h
  cases pc <;> decide

end PetersonPc

namespace PetersonIndex

@[simp]
theorem j_other (x : PetersonIndex) : x.other.j = x.i := by
  cases x <;> rfl

theorem i_ne_j (x : PetersonIndex) : (x.i.val : ℤ) ≠ x.j.val := by
  cases x <;> decide

end PetersonIndex

namespace PetersonState

variable {s : PetersonState} {x : PetersonIndex}

/-- The next step of the thread takes it into `critical_section`. -/
def Enters (s : PetersonState) (x : PetersonIndex) : Prop :=
  (s.pc x).inLoop ∧ (s.exec x).pc x = .criticalSection

instance (s : PetersonState) (x : PetersonIndex) : Decidable (s.Enters x) :=
  inferInstanceAs (Decidable (_ ∧ _))

/-- How often a thread enters `critical_section` in a run. -/
def entries (x : PetersonIndex) (tr : List (PetersonState × PetersonIndex)) : ℕ :=
  tr.countP fun p => p.2 = x ∧ p.1.Enters x

/-- How often the other thread can still enter while `x` waits: once more before `x` has stored the
turn, and once if it is in the loop with the turn its own. -/
def passes (s : PetersonState) (x : PetersonIndex) : ℕ :=
  (if s.pc x = .setTurn then 1 else 0) +
    if (s.pc x.other).inLoop ∧ s.p.turn = x.j.val then 1 else 0

/-! ## What a step changes -/

section Step

variable (s : PetersonState) (x : PetersonIndex)

theorem exec_pc_other : (s.exec x).pc x.other = s.pc x.other := by
  unfold exec
  split <;> (try split) <;> simp [goto, setFlag, setTurn]

theorem exec_turn : (s.exec x).p.turn = if s.pc x = .setTurn then (x.j.val : ℤ) else s.p.turn := by
  unfold exec
  split <;> (try split) <;> simp_all [goto, setFlag, setTurn]

/-- Where the thread is after its step. -/
theorem exec_pc : (s.exec x).pc x =
    match s.pc x with
    | .outside => .setFlag
    | .setFlag => .setTurn
    | .setTurn => .testFlag
    | .testFlag => if s.p.flag x.j then .testTurn else .criticalSection
    | .testTurn => if s.p.turn = x.j.val then .testFlag else .criticalSection
    | .criticalSection => .clearFlag
    | .clearFlag => .remainderSection
    | .remainderSection => .outside := by
  unfold exec
  split <;> (try split) <;> simp_all [goto, setFlag, setTurn]

end Step

/-- The step of the other thread leaves a thread where it is. -/
theorem exec_other_pc : (s.exec x.other).pc x = s.pc x := by
  simpa using s.exec_pc_other x.other

/-- The flag that a thread tests is up from the first store of the other one to its last. -/
theorem Invariant.flag_other (h : s.Invariant) : s.p.flag x.j = (s.pc x.other).flagSet := by
  rw [← x.i_other, h.flag x.other]

/-! ## Bounded waiting -/

/-- A thread can enter beside one that waits only with the turn its own. -/
theorem Enters.turn (h : s.Invariant) (hwaits : (s.pc x).waits) (henter : s.Enters x.other) :
    s.p.turn = x.j.val := by
  obtain ⟨hloop, hpc⟩ := henter
  have hflag : s.p.flag x.i = true := (h.flag x).trans (PetersonPc.flagSet_of_waits hwaits)
  rw [exec_pc] at hpc
  -- with the flag up, the other thread has come to its section from the test of the turn
  rcases PetersonPc.inLoop_iff.mp hloop with hother | hother
  · simp [hother, hflag] at hpc
  · have hstored := h.stored x.other (by rw [hother]; rfl)
    rw [x.i_other] at hstored
    exact hstored.resolve_right fun hturn => by simp [hother, hturn] at hpc

/-- While `x` waits, an entry of the other thread uses up one of its passes, and no step gives it
another one. -/
theorem passes_exec (h : s.Invariant) (hwaits : (s.pc x).waits) (e : PetersonIndex) :
    (s.exec e).passes x + (if e = x.other ∧ s.Enters x.other then 1 else 0) ≤ s.passes x := by
  rcases x.eq_or_eq_other e with rfl | rfl
  · have hne : ¬(e = e.other ∧ s.Enters e.other) := fun hc => e.other_ne hc.1.symm
    rw [if_neg hne, passes, passes, exec_pc_other, exec_turn, exec_pc]
    rcases PetersonPc.waits_iff.mp hwaits with hpc | hpc | hpc
    · -- the turn goes to the other thread, which may be in the loop
      simp only [hpc, if_true, reduceCtorEq, if_false]
      split <;> omega
    · simp only [hpc, reduceCtorEq, if_false]
      split <;> simp
    · simp only [hpc, reduceCtorEq, if_false]
      split <;> simp
  · by_cases henter : s.Enters x.other
    · have hturn := henter.turn h hwaits
      have hloop := henter.1
      simp only [passes, exec_other_pc, henter, and_self, if_true, henter.2, hloop, hturn]
      simp [PetersonPc.inLoop]
    · rw [if_neg fun hc => henter hc.2, passes, passes, exec_other_pc, exec_turn, Nat.add_zero]
      refine Nat.add_le_add_left ?_ _
      -- the other thread comes into the loop by giving its turn away, and stays in it
      by_cases hset : s.pc x.other = .setTurn
      · simp [hset, x.i_ne_j]
      · rw [if_neg hset]
        by_cases hloop : (s.pc x.other).inLoop
        · simp only [hloop, true_and]
          split_ifs <;> omega
        · have hout : ¬((s.exec x.other).pc x.other).inLoop := by
            rw [exec_pc]
            cases hother : s.pc x.other <;> simp_all [PetersonPc.inLoop_iff]
          simp [hout]

theorem passes_le (s : PetersonState) (x : PetersonIndex) :
    s.passes x ≤ 2 ∧ ((s.pc x).inLoop → s.passes x ≤ 1) := by
  unfold passes
  constructor
  · split <;> split <;> simp
  · intro hloop
    have hne : s.pc x ≠ .setTurn := fun h => by simp [h, PetersonPc.inLoop_iff] at hloop
    rw [if_neg hne]
    split <;> simp

/-- In every run during which a thread waits, from the store of its flag on, the other one enters
its critical section twice at most, and once at most if the thread is in the loop. -/
theorem peterson_boundedWaiting {s₀ s s' : PetersonState} {x : PetersonIndex}
    {tr₀ tr : List (PetersonState × PetersonIndex)} (h₀ : s₀.Initial) (hr : Run Step s₀ tr₀ s)
    (h : Run Step s tr s') (hwaits : ∀ p ∈ tr, (p.1.pc x).waits) :
    entries x.other tr ≤ 2 ∧ ((s.pc x).inLoop → entries x.other tr ≤ 1) := by
  have hinv : s.Invariant := hr.invariant h₀.invariant fun _ _ _ h hs => hs ▸ h.step
  have hcount := (h.restrict (C := fun s _ => (s.pc x).waits) hwaits).countP_add_le
    (C := fun s e => e = x.other ∧ s.Enters x.other) (I := Invariant) (μ := (passes · x))
    hinv
    (fun _ _ _ h hs => hs.1 ▸ h.step)
    fun s e s' h hs => by
      obtain ⟨rfl, hw⟩ := hs
      exact passes_exec h hw e
  have hle := s.passes_le x
  unfold entries
  refine ⟨?_, fun hloop => ?_⟩
  · omega
  · have := hle.2 hloop
    omega

/-- Both threads are in the loop, and the first one has given the turn to the second one. -/
def overtaking : PetersonState :=
  [.pI, .pI, .pJ, .pJ, .pJ, .pJ, .pI].foldl exec sPeterson

/-- The second thread enters while the first one waits in the loop, once. -/
theorem peterson_boundedWaiting_overtaking :
    (overtaking.exec .pJ).pc .pJ = .criticalSection ∧ entries .pJ [(overtaking, .pJ)] ≤ 1 := by
  obtain ⟨tr₀, hr, -⟩ : ∃ tr₀, Run Step sPeterson tr₀ overtaking ∧ tr₀.map Prod.snd = _ :=
    exists_run_foldl (fun _ _ => true) exec sPeterson
      [.pI, .pI, .pJ, .pJ, .pJ, .pJ, .pI] (fun _ _ _ => rfl) rfl
  have h : Run Step overtaking [(overtaking, .pJ)] (overtaking.exec .pJ) :=
    (Run.nil overtaking).snoc rfl
  have hwaits : ∀ p ∈ [(overtaking, PetersonIndex.pJ)], (p.1.pc .pI).waits := by
    intro p hp
    rw [List.mem_singleton.mp hp]
    rfl
  refine ⟨rfl, ?_⟩
  exact (peterson_boundedWaiting (x := .pI) ⟨fun _ => rfl, fun _ => rfl⟩ hr h hwaits).2 rfl

/-! ## Entering -/

/-- What is left to do before a thread that tries is in its critical section. In the loop without
the turn, it is up to the other thread if that one's flag is set. -/
def delay (s : PetersonState) (x : PetersonIndex) : ℕ :=
  if s.pc x = .setFlag then 12
  else if s.pc x = .setTurn then 11
  else if s.p.turn = x.i.val then if s.pc x = .testFlag then 3 else 2
  else if (s.pc x.other).flagSet then (s.pc x.other).ahead
  else if s.pc x = .testFlag then 5 else 6

/-- Whose step brings that about: the other thread's if it is on its way through `peterson` and has
not given the turn away, else the thread's own. -/
def helper (s : PetersonState) (x : PetersonIndex) : PetersonIndex :=
  if (s.pc x).inLoop ∧ s.p.turn ≠ x.i.val ∧ (s.pc x.other).flagSet then x.other else x

/-- A step brings the thread into its critical section or leaves it trying, with less left to do,
or as much as before if it was not the step that helps. -/
def Advances (s s' : PetersonState) (x e : PetersonIndex) : Prop :=
  s'.pc x = .criticalSection ∨ (s'.pc x).tries ∧ (s'.delay x < s.delay x ∨
    s'.delay x = s.delay x ∧ s'.helper x = s.helper x ∧ e ≠ s.helper x)

/-- The thread's own step in the loop. -/
theorem advances_loop (h : s.Invariant) (hloop : (s.pc x).inLoop) :
    s.Advances (s.exec x) x x := by
  have hflag := h.flag_other (x := x)
  have hturn := h.stored x (by simp [PetersonPc.turnStored, hloop])
  unfold Advances
  by_cases hset : (s.pc x.other).flagSet
  · rw [hset] at hflag
    rcases PetersonPc.inLoop_iff.mp hloop with hpc | hpc <;> rcases hturn with hturn | hturn <;>
      simp [exec_pc, delay, helper, exec_pc_other, exec_turn, hpc, hset, hflag, hturn,
        PetersonPc.tries_iff, PetersonPc.inLoop_iff, x.i_ne_j, x.i_ne_j.symm, x.other_ne.symm]
  · rw [Bool.not_eq_true] at hset
    rw [hset] at hflag
    -- the test of the flag is the last one
    rcases PetersonPc.inLoop_iff.mp hloop with hpc | hpc
    · simp [exec_pc, hpc, hflag]
    · rcases hturn with hturn | hturn <;>
        simp [exec_pc, delay, exec_pc_other, exec_turn, hpc, hset, hturn, PetersonPc.tries_iff,
          x.i_ne_j, x.i_ne_j.symm]

/-- The thread's own step. -/
theorem advances_self (h : s.Invariant) (htries : (s.pc x).tries) : s.Advances (s.exec x) x x := by
  rcases PetersonPc.tries_iff.mp htries with hpc | hpc | hloop
  · simp [Advances, exec_pc, delay, hpc, PetersonPc.tries_iff]
  -- the store of the turn: wherever the other thread is then, less is left to do
  · refine .inr ⟨by simp [exec_pc, hpc, PetersonPc.tries_iff], .inl ?_⟩
    simp only [delay, exec_pc, exec_pc_other, exec_turn, hpc, if_true, x.i_ne_j.symm, if_false,
      reduceCtorEq]
    cases s.pc x.other <;> decide
  · exact advances_loop h (PetersonPc.inLoop_iff.mpr hloop)

/-- A step of the other thread. It has no part in the way to the loop, nor behind its store of the
turn. -/
theorem advances_other (h : s.Invariant) (htries : (s.pc x).tries) :
    s.Advances (s.exec x.other) x x.other := by
  refine .inr ⟨by rwa [exec_other_pc], ?_⟩
  have hpcTurn : (s.exec x.other).p.turn =
      if s.pc x.other = .setTurn then (x.i.val : ℤ) else s.p.turn := by simp [exec_turn]
  by_cases hloop : (s.pc x).inLoop
  · have hne : s.pc x ≠ .setFlag ∧ s.pc x ≠ .setTurn := by
      rcases PetersonPc.inLoop_iff.mp hloop with hpc | hpc <;> simp [hpc]
    by_cases hturn : s.p.turn = x.i.val
    · simp [delay, helper, exec_other_pc, hpcTurn, hne, hturn]
    · have hstored : s.p.turn = x.j.val :=
        (h.stored x (by simp [PetersonPc.turnStored, hloop])).resolve_left hturn
      have hflag : s.p.flag x.i = true := by
        rw [h.flag x]
        simp [PetersonPc.flagSet, PetersonPc.turnStored, hloop]
      have hpc := s.exec_pc x.other
      -- the other thread is on its way to give up the flag or the turn, or the thread is not in it
      cases hother : s.pc x.other <;>
        simp only [hother, x.j_other, hflag, hstored, x.i_ne_j.symm, if_true, if_false] at hpc <;>
        simp [delay, helper, exec_other_pc, hpcTurn, hpc, hne, hother, hstored,
          x.i_ne_j.symm, PetersonPc.ahead, PetersonPc.flagSet, PetersonPc.turnStored,
          PetersonPc.inLoop, PetersonPc.pastLoop]
      all_goals split <;> simp
  · have hout : s.pc x = .setFlag ∨ s.pc x = .setTurn := by
      rcases PetersonPc.tries_iff.mp htries with hpc | hpc | hin
      · exact .inl hpc
      · exact .inr hpc
      · exact absurd (PetersonPc.inLoop_iff.mpr hin) hloop
    refine .inr ⟨?_, ?_, ?_⟩
    · rcases hout with hpc | hpc <;> simp [delay, exec_other_pc, hpc]
    · simp [helper, exec_other_pc, hloop]
    · simp [helper, hloop]

/-- The thread whose step is awaited takes it, since it is not in its own code. -/
theorem not_mayStay_helper (htries : (s.pc x).tries) :
    (s.pc (s.helper x)).mayStay = false := by
  unfold helper
  split
  next hother =>
    have hset := hother.2.2
    revert hset
    cases s.pc x.other <;> decide
  next =>
    rcases PetersonPc.tries_iff.mp htries with hpc | hpc | hpc | hpc <;> rw [hpc] <;> rfl

/-- In every infinite run in which no thread stops in the middle of `peterson`, a thread that has
called it comes to its critical section, whatever the other one does and however long. -/
theorem peterson_enters {b : Behaviour Step} (h₀ : (b.state 0).Initial)
    (hfair : b.Fair fun s x => (s.pc x).mayStay) (x : PetersonIndex) :
    b.LeadsTo (fun s => (s.pc x).tries) (fun s => s.pc x = .criticalSection) := by
  have hinv : ∀ n, (b.state n).Invariant := fun n =>
    (b.reachable n).invariant h₀.invariant fun _ _ _ h hs => hs ▸ h.step
  have hleads : b.LeadsTo (fun s => s.Invariant ∧ (s.pc x).tries)
      (fun s => s.pc x = .criticalSection) := by
    refine Behaviour.leadsTo_of_rank hfair (delay · x) (helper · x) ?_ ?_
    · rintro s ⟨-, htries⟩
      simp [not_mayStay_helper htries]
    · rintro s e s' ⟨hs, htries⟩ rfl
      have hadvances : s.Advances (s.exec e) x e := by
        rcases x.eq_or_eq_other e with rfl | rfl
        · exact advances_self hs htries
        · exact advances_other hs htries
      exact hadvances.imp_right fun h => ⟨⟨hs.step, h.1⟩, h.2⟩
  exact fun n htries => hleads n ⟨hinv n, htries⟩

/-- The two threads in turn. -/
def alternating : Behaviour Step :=
  .ofSchedule exec sPeterson fun n => if n % 2 = 0 then .pI else .pJ

/-- Both threads call `peterson` and never stop: each comes to its critical section. -/
theorem peterson_enters_alternating :
    (∃ m, 1 ≤ m ∧ (alternating.state m).pc .pI = .criticalSection) ∧
      ∃ m, 2 ≤ m ∧ (alternating.state m).pc .pJ = .criticalSection := by
  have hfair : alternating.Fair fun s x => (s.pc x).mayStay := fun x n => by
    cases x with
    | pI => exact ⟨2 * n, by omega, .inl (if_pos (by omega))⟩
    | pJ => exact ⟨2 * n + 1, by omega, .inl (if_neg (by omega))⟩
  have h₀ : (alternating.state 0).Initial := ⟨fun _ => rfl, fun _ => rfl⟩
  exact ⟨peterson_enters h₀ hfair .pI 1 rfl, peterson_enters h₀ hfair .pJ 2 rfl⟩

end PetersonState

end GeekOS.Game
