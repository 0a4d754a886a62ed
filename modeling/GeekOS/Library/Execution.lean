import Mathlib.Algebra.GroupWithZero.Nat
import GeekOS.Library.Run

/-!
# Runs from lists of events

A system whose steps are computed: `enabled s e` tells whether the event `e` can come in the state
`s`, and `exec s e` carries it out or fails. `runs` carries out a list of events, so that a run of
the system can be given by its events and evaluated.
-/

namespace TransitionSystem

variable {σ ε φ : Type*} {enabled : σ → ε → Prop} [∀ s e, Decidable (enabled s e)]
  {exec : σ → ε → Except φ σ}

/-- The steps that `enabled` and `exec` make. -/
def stepOf (enabled : σ → ε → Prop) (exec : σ → ε → Except φ σ) (s : σ) (e : ε) (s' : σ) : Prop :=
  enabled s e ∧ exec s e = .ok s'

/-- Carry out the events one after the other, if all can come and none of them fails: the trace
and the last state. -/
def runs (enabled : σ → ε → Prop) [∀ s e, Decidable (enabled s e)] (exec : σ → ε → Except φ σ)
    (s : σ) : List ε → Option (List (σ × ε) × σ)
  | [] => some ([], s)
  | e :: events =>
      if enabled s e then
        match exec s e with
        | .ok s' => (runs enabled exec s' events).map fun r => ((s, e) :: r.1, r.2)
        | .error _ => none
      else none

/-- Where the events lead, and `s` if they cannot all come. -/
def after (enabled : σ → ε → Prop) [∀ s e, Decidable (enabled s e)] (exec : σ → ε → Except φ σ)
    (s : σ) (events : List ε) : σ :=
  ((runs enabled exec s events).map Prod.snd).getD s

variable {s s' : σ} {events : List ε} {tr : List (σ × ε)}

theorem runs_cons {e : ε} (h : runs enabled exec s (e :: events) = some (tr, s')) :
    ∃ s₁ tr₁, stepOf enabled exec s e s₁ ∧ runs enabled exec s₁ events = some (tr₁, s') ∧
      tr = (s, e) :: tr₁ := by
  rw [runs] at h
  split at h
  next hen =>
    split at h
    next s₁ hs₁ =>
      obtain ⟨⟨tr₁, s₂⟩, hr, heq⟩ := Option.map_eq_some_iff.mp h
      obtain ⟨rfl, rfl⟩ := Prod.mk.inj heq
      exact ⟨s₁, tr₁, ⟨hen, hs₁⟩, hr, rfl⟩
    · simp at h
  · simp at h

theorem run_of_runs (h : runs enabled exec s events = some (tr, s')) :
    Run (stepOf enabled exec) s tr s' := by
  induction events generalizing s tr with
  | nil =>
    obtain ⟨rfl, rfl⟩ := by simpa [runs] using h
    exact .nil s
  | cons e events ih =>
    obtain ⟨s₁, tr₁, hs, hr, rfl⟩ := runs_cons h
    exact (Run.snoc (.nil s) hs).append (ih hr)

/-- The trace consists of the events. -/
theorem map_snd_of_runs (h : runs enabled exec s events = some (tr, s')) :
    tr.map Prod.snd = events := by
  induction events generalizing s tr with
  | nil =>
    obtain ⟨rfl, rfl⟩ := by simpa [runs] using h
    rfl
  | cons e events ih =>
    obtain ⟨s₁, tr₁, -, hr, rfl⟩ := runs_cons h
    rw [List.map_cons, ih hr]

/-- Events that all can come, one after the other, are a run to where they lead. -/
theorem run_after (h : (runs enabled exec s events).isSome) :
    ∃ tr, Run (stepOf enabled exec) s tr (after enabled exec s events) := by
  obtain ⟨⟨tr, s'⟩, hr⟩ := Option.isSome_iff_exists.mp h
  obtain rfl : after enabled exec s events = s' := by simp [after, hr]
  exact ⟨tr, run_of_runs hr⟩

/-- What is computed of a run holds of it. -/
theorem exists_run {P : List (σ × ε) → σ → Prop} [∀ tr s, Decidable (P tr s)]
    (h : (runs enabled exec s events).any fun r => P r.1 r.2) :
    ∃ tr s', Run (stepOf enabled exec) s tr s' ∧ P tr s' := by
  obtain ⟨⟨tr, s'⟩, hr, hP⟩ := (Option.any_eq_true _ _).mp h
  exact ⟨tr, s', run_of_runs hr, of_decide_eq_true hP⟩

theorem reachable_after (h : (runs enabled exec s events).isSome) :
    Reachable (stepOf enabled exec) s (after enabled exec s events) := by
  obtain ⟨tr, hr⟩ := run_after h
  exact hr.reachable

/-! ## Threads of runs that are computed -/

/-- The instance behind the numerals of one thread, where a run is given event by event. -/
theorem neZero_one : NeZero 1 := ⟨Nat.one_ne_zero⟩

/-- The same for two threads. -/
theorem neZero_two : NeZero 2 := ⟨by decide⟩

/-! ## Events that cannot fail -/

section Total

variable {step : σ → ε → σ → Prop}

/-- The events can come one after the other. -/
def comes (enabled : σ → ε → Bool) (next : σ → ε → σ) : σ → List ε → Bool
  | _, [] => true
  | s, e :: events => enabled s e && comes enabled next (next s e) events

/-- Events that can all come are a run to where they lead. -/
theorem exists_run_foldl (enabled : σ → ε → Bool) (next : σ → ε → σ) (s : σ) (events : List ε)
    (hstep : ∀ s e, enabled s e = true → step s e (next s e))
    (h : comes enabled next s events = true) :
    ∃ tr, Run step s tr (events.foldl next s) ∧ tr.map Prod.snd = events := by
  induction events generalizing s with
  | nil => exact ⟨[], .nil s, rfl⟩
  | cons e events ih =>
    obtain ⟨hen, hrest⟩ := (Bool.and_eq_true_iff).mp h
    obtain ⟨tr, hr, hmap⟩ := ih (next s e) hrest
    exact ⟨(s, e) :: tr, (Run.snoc (.nil s) (hstep s e hen)).append hr,
      by rw [List.map_cons, hmap]⟩

end Total

/-! ## Steps that are computed one by one -/

/-- If whatever `exec` computes is a step, then events that are carried out one after the other are a
run. -/
theorem exists_run_foldlM {step : σ → ε → σ → Prop} {exec : σ → ε → Option σ} {s s' : σ}
    {events : List ε} (hstep : ∀ s e s', exec s e = some s' → step s e s')
    (h : events.foldlM exec s = some s') : ∃ tr, Run step s tr s' := by
  induction events generalizing s with
  | nil =>
    obtain rfl := Option.some.inj h
    exact ⟨[], .nil s⟩
  | cons e events ih =>
    obtain ⟨s₁, hs, hrest⟩ := Option.bind_eq_some_iff.mp h
    obtain ⟨tr, hr⟩ := ih hrest
    exact ⟨(s, e) :: tr, (Run.snoc (.nil s) (hstep s e s₁ hs)).append hr⟩

end TransitionSystem
