import Mathlib.Data.Int.Notation
import Mathlib.Logic.Function.Basic
import GeekOS.Library.Execution

/-!
# Peterson's solution

The function `peterson` of `peterson.c`, run by two threads on one `struct peterson_t`. A step is
one access to the shared memory: the two tests of the loop are separate reads, and the stores are
separate writes. What `critical_section` and `remainder_section` do elsewhere does not matter here;
a thread is inside of them for as long as the other one likes to run.

* `Invariant`: a flag is set from the first store of a call to its last one, and a thread that is
  past the loop has the turn if the other one has stored it too;
* `peterson_exclusive`: in every run, the critical sections exclude each other and the threads do
  not hold each other up.
-/

namespace GeekOS.Game

open TransitionSystem

/-- `peterson_index_t`. -/
inductive PetersonIndex
  | pI | pJ
  deriving DecidableEq, Repr

namespace PetersonIndex

/-- The index of the other thread. -/
def other : PetersonIndex → PetersonIndex
  | pI => pJ
  | pJ => pI

/-- The value of `i` in a call of `peterson`. -/
def i : PetersonIndex → Fin 2
  | pI => 0
  | pJ => 1

/-- The value of `j`. -/
def j : PetersonIndex → Fin 2
  | pI => 1
  | pJ => 0

@[simp]
theorem other_other (x : PetersonIndex) : x.other.other = x := by
  cases x <;> rfl

@[simp]
theorem other_ne (x : PetersonIndex) : x.other ≠ x := by
  cases x <;> decide

@[simp]
theorem i_other (x : PetersonIndex) : x.other.i = x.j := by
  cases x <;> rfl

@[simp]
theorem j_ne_i (x : PetersonIndex) : x.j ≠ x.i := by
  cases x <;> decide

theorem eq_or_eq_other (x y : PetersonIndex) : y = x ∨ y = x.other := by
  cases x <;> cases y <;> decide

end PetersonIndex

/-- Where a thread is in `peterson`: the access that comes next, or a section that it is in. -/
inductive PetersonPc
  /-- Outside of the function. -/
  | outside
  /-- At `p->flag[i] = true`. -/
  | setFlag
  /-- At `p->turn = j`. -/
  | setTurn
  /-- At the test of `p->flag[j]`. -/
  | testFlag
  /-- At the test of `p->turn == j`. -/
  | testTurn
  /-- In `critical_section`. -/
  | criticalSection
  /-- At `p->flag[i] = false`. -/
  | clearFlag
  /-- In `remainder_section`. -/
  | remainderSection
  deriving DecidableEq, Repr

namespace PetersonPc

/-- In the `while` loop. -/
def inLoop : PetersonPc → Bool
  | testFlag | testTurn => true
  | _ => false

/-- Behind the loop, up to the last store. -/
def pastLoop : PetersonPc → Bool
  | criticalSection | clearFlag => true
  | _ => false

/-- Behind the store of `turn`. -/
def turnStored (pc : PetersonPc) : Bool := pc.inLoop || pc.pastLoop

/-- Between the two stores of the flag. -/
def flagSet (pc : PetersonPc) : Bool := pc == setTurn || pc.turnStored

end PetersonPc

/-- `struct peterson_t`. -/
structure Peterson where
  flag : Fin 2 → Bool
  turn : ℤ

/-- The shared memory and the two threads, each under the index that it passes to `peterson`. -/
structure PetersonState where
  p : Peterson
  pc : PetersonIndex → PetersonPc

namespace PetersonState

variable (s : PetersonState)

/-- Move a thread. -/
def goto (x : PetersonIndex) (pc : PetersonPc) : PetersonState :=
  { s with pc := Function.update s.pc x pc }

/-- Store a flag. -/
def setFlag (i : Fin 2) (b : Bool) : PetersonState :=
  { s with p := { s.p with flag := Function.update s.p.flag i b } }

/-- Store the turn. -/
def setTurn (turn : ℤ) : PetersonState := { s with p := { s.p with turn } }

/-- The next step of a thread in `peterson`. A thread outside of it calls it. -/
def exec (x : PetersonIndex) : PetersonState :=
  match s.pc x with
  | .outside => s.goto x .setFlag
  | .setFlag => (s.setFlag x.i true).goto x .setTurn
  | .setTurn => (s.setTurn x.j.val).goto x .testFlag
  | .testFlag => if s.p.flag x.j then s.goto x .testTurn else s.goto x .criticalSection
  | .testTurn => if s.p.turn = x.j.val then s.goto x .testFlag else s.goto x .criticalSection
  | .criticalSection => s.goto x .clearFlag
  | .clearFlag => (s.setFlag x.i false).goto x .remainderSection
  | .remainderSection => s.goto x .outside

/-- One of the threads takes a step. -/
def Step (s : PetersonState) (x : PetersonIndex) (s' : PetersonState) : Prop := s' = s.exec x

/-- Both threads are outside of `peterson`, with their flags down. The turn may be any. -/
structure Initial : Prop where
  outside : ∀ x, s.pc x = .outside
  flag : ∀ i, s.p.flag i = false

/-- The thread is in the loop and both loop conditions are true. -/
def Spins (x : PetersonIndex) : Prop :=
  (s.pc x).inLoop ∧ s.p.flag x.j = true ∧ s.p.turn = x.j.val

/-- The threads are not in the critical section together, and do not spin together. -/
structure Exclusive : Prop where
  critical : ¬(s.pc .pI = .criticalSection ∧ s.pc .pJ = .criticalSection)
  spins : ¬(s.Spins .pI ∧ s.Spins .pJ)

/-- What every step keeps. A thread that is past the loop has found the flag of the other one down,
or the turn its own; the other one can only make the turn its own again. -/
structure Invariant : Prop where
  flag : ∀ x, s.p.flag x.i = (s.pc x).flagSet
  stored : ∀ x, (s.pc x).turnStored → s.p.turn = x.i.val ∨ s.p.turn = x.j.val
  past : ∀ x, (s.pc x).pastLoop → (s.pc x.other).turnStored → s.p.turn = x.i.val

variable {s} {x : PetersonIndex}

theorem Initial.invariant (h : s.Initial) : s.Invariant where
  flag x := by simp [h.flag, h.outside, PetersonPc.flagSet, PetersonPc.turnStored, PetersonPc.inLoop,
    PetersonPc.pastLoop]
  stored x hx := by simp [h.outside, PetersonPc.turnStored, PetersonPc.inLoop,
    PetersonPc.pastLoop] at hx
  past x hx := by simp [h.outside, PetersonPc.pastLoop] at hx

/-- A step that only moves its thread: it keeps the invariant if the thread is on the same side of
the stores and, where it leaves the loop, has the turn or is alone. -/
theorem Invariant.goto (h : s.Invariant) {pc : PetersonPc}
    (hflag : pc.flagSet = (s.pc x).flagSet) (hstored : pc.turnStored = (s.pc x).turnStored)
    (hpast : pc.pastLoop → (s.pc x.other).turnStored → s.p.turn = x.i.val) :
    (s.goto x pc).Invariant where
  flag y := by
    rcases x.eq_or_eq_other y with rfl | rfl
    · simpa [PetersonState.goto, hflag] using h.flag y
    · simpa [PetersonState.goto] using h.flag x.other
  stored y hy := by
    rcases x.eq_or_eq_other y with rfl | rfl
    · exact h.stored y (by simpa [PetersonState.goto, hstored] using hy)
    · exact h.stored x.other (by simpa [PetersonState.goto] using hy)
  past y hy hother := by
    rcases x.eq_or_eq_other y with rfl | rfl
    · exact hpast (by simpa [PetersonState.goto] using hy)
        (by simpa [PetersonState.goto] using hother)
    · refine h.past x.other (by simpa [PetersonState.goto] using hy) ?_
      simpa [PetersonState.goto, hstored] using hother

/-- The two stores of the flag, in front of the store of the turn and behind the loop. -/
theorem Invariant.setFlag (h : s.Invariant) (pc : PetersonPc) (hstored : pc.turnStored = false) :
    ((s.setFlag x.i pc.flagSet).goto x pc).Invariant where
  flag y := by
    rcases x.eq_or_eq_other y with rfl | rfl
    · simp [PetersonState.goto, PetersonState.setFlag]
    · simpa [PetersonState.goto, PetersonState.setFlag] using h.flag x.other
  stored y hy := by
    rcases x.eq_or_eq_other y with rfl | rfl
    · simp [PetersonState.goto, hstored] at hy
    · exact h.stored x.other (by simpa [PetersonState.goto, PetersonState.setFlag] using hy)
  past y hy hother := by
    rcases x.eq_or_eq_other y with rfl | rfl
    · simp [PetersonState.goto, PetersonPc.turnStored] at hy hstored
      simp [hstored.2] at hy
    · simp [PetersonState.goto, hstored] at hother

/-- The store of the turn gives it to the other thread, which may be past the loop. -/
theorem Invariant.setTurn (h : s.Invariant) (hpc : s.pc x = .setTurn) :
    ((s.setTurn x.j.val).goto x .testFlag).Invariant where
  flag y := by
    rcases x.eq_or_eq_other y with rfl | rfl
    · simpa [PetersonState.goto, PetersonState.setTurn, hpc, PetersonPc.flagSet,
        PetersonPc.turnStored, PetersonPc.inLoop] using h.flag y
    · simpa [PetersonState.goto, PetersonState.setTurn] using h.flag x.other
  stored y _ := by
    rcases x.eq_or_eq_other y with rfl | rfl
    · exact .inr rfl
    · exact .inl (by rw [x.i_other]; rfl)
  past y hy _ := by
    rcases x.eq_or_eq_other y with rfl | rfl
    · simp [PetersonState.goto, PetersonPc.pastLoop] at hy
    · rw [x.i_other]
      rfl

/-- Every step keeps the invariant. -/
theorem Invariant.step (h : s.Invariant) : (s.exec x).Invariant := by
  unfold exec
  split
  next hpc => exact h.goto (by rw [hpc]; rfl) (by rw [hpc]; rfl) (by simp [PetersonPc.pastLoop])
  next hpc => exact h.setFlag .setTurn rfl
  next hpc => exact h.setTurn hpc
  next hpc =>
    split
    next => exact h.goto (by rw [hpc]; rfl) (by rw [hpc]; rfl) (by simp [PetersonPc.pastLoop])
    next hdown =>
      -- the flag of the other thread is down, so it has not stored the turn yet
      refine h.goto (by rw [hpc]; rfl) (by rw [hpc]; rfl) fun _ hother => ?_
      rw [← x.i_other, h.flag x.other, PetersonPc.flagSet, hother] at hdown
      simp at hdown
  next hpc =>
    split
    next => exact h.goto (by rw [hpc]; rfl) (by rw [hpc]; rfl) (by simp [PetersonPc.pastLoop])
    next hturn =>
      refine h.goto (by rw [hpc]; rfl) (by rw [hpc]; rfl) fun _ _ => ?_
      exact (h.stored x (by rw [hpc]; rfl)).resolve_right hturn
  next hpc =>
    exact h.goto (by rw [hpc]; rfl) (by rw [hpc]; rfl) fun _ => h.past x (by rw [hpc]; rfl)
  next hpc => exact h.setFlag .remainderSection rfl
  next hpc => exact h.goto (by rw [hpc]; rfl) (by rw [hpc]; rfl) (by simp [PetersonPc.pastLoop])

theorem Invariant.exclusive (h : s.Invariant) : s.Exclusive where
  critical := by
    rintro ⟨hI, hJ⟩
    -- each of the two would have the turn
    have hturnI := h.past .pI (by rw [hI]; rfl) (by rw [PetersonIndex.other, hJ]; rfl)
    have hturnJ := h.past .pJ (by rw [hJ]; rfl) (by rw [PetersonIndex.other, hI]; rfl)
    rw [hturnI] at hturnJ
    cases hturnJ
  spins := by
    rintro ⟨⟨-, -, hI⟩, -, -, hJ⟩
    rw [hI] at hJ
    cases hJ

/-- In every run of the two threads, with any number of calls each: they are never inside
`critical_section` at the same time, and never both in the loop with both conditions true. -/
theorem peterson_exclusive {s₀ : PetersonState} {tr : List (PetersonState × PetersonIndex)}
    (hr : Run Step s₀ tr s) (h₀ : s₀.Initial) : ∀ s' ∈ visited tr s, s'.Exclusive := by
  intro s' hs'
  have hinv := (hr.reachable_of_visited hs').invariant h₀.invariant
    fun _ _ _ h hs => hs ▸ h.step
  exact hinv.exclusive

/-- `s_peterson` before any thread has used it. -/
def sPeterson : PetersonState where
  p := { flag := fun _ => false, turn := 0 }
  pc _ := .outside

/-- One thread is in the critical section while the other one spins. -/
theorem peterson_exclusive_spinning :
    ∃ tr s, Run Step sPeterson tr s ∧ s.pc .pI = .criticalSection ∧ s.Spins .pJ ∧
      ∀ s' ∈ visited tr s, s'.Exclusive := by
  obtain ⟨tr, hr, -⟩ : ∃ tr, Run Step sPeterson tr _ ∧ tr.map Prod.snd = _ :=
    exists_run_foldl (fun _ _ => true) exec sPeterson
      [.pI, .pI, .pI, .pJ, .pJ, .pJ, .pJ, .pI, .pI] (fun _ _ _ => rfl) rfl
  exact ⟨tr, _, hr, rfl, ⟨rfl, rfl, rfl⟩, peterson_exclusive hr ⟨fun _ => rfl, fun _ => rfl⟩⟩

end PetersonState

end GeekOS.Game
