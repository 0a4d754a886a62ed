import Mathlib.Logic.Relation

/-!
# Runs of a labelled transition system

A system is a relation `step s e s'` on states and events. `Run step s₀ tr s` is a finite run
from `s₀` to `s`; its trace `tr` lists the state before each step together with the event, so
that a statement about a run can speak of every step taken and of every state reached.

* `Run.invariant`: what holds at the start and is kept by every step holds at the end;
* `Run.invariant_of_steps`, `Run.invariant_of_visited`: the same when the steps taken all meet a
  condition, at the end and on the way;
* `Run.simulation`: what another system does when each step is matched by steps of it;
* `Run.states_iff_steps`: if a property survives a step exactly when the step meets a
  condition, then it holds in every state of a run exactly when every step meets it.
-/

namespace TransitionSystem

variable {σ ε : Type*} {step : σ → ε → σ → Prop}

/-- Finite runs, with the state before each step and the event taken there. -/
inductive Run (step : σ → ε → σ → Prop) : σ → List (σ × ε) → σ → Prop
  | nil (s : σ) : Run step s [] s
  | snoc {s₀ s s' : σ} {tr : List (σ × ε)} {e : ε} :
      Run step s₀ tr s → step s e s' → Run step s₀ (tr ++ [(s, e)]) s'

/-- The states a system reaches from `s₀`. -/
def Reachable (step : σ → ε → σ → Prop) (s₀ s : σ) : Prop :=
  ∃ tr, Run step s₀ tr s

/-- The states a run visits: those it left by a step, and the last one. -/
def visited (tr : List (σ × ε)) (s : σ) : List σ :=
  tr.map Prod.fst ++ [s]

@[simp]
theorem mem_visited {tr : List (σ × ε)} {s t : σ} :
    t ∈ visited tr s ↔ (∃ e, (t, e) ∈ tr) ∨ t = s := by
  simp [visited]

theorem Reachable.refl (s : σ) : Reachable step s s := ⟨[], .nil s⟩

theorem Reachable.tail {s₀ s s' : σ} {e : ε} (h : Reachable step s₀ s) (hs : step s e s') :
    Reachable step s₀ s' := by
  obtain ⟨tr, hr⟩ := h
  exact ⟨_, hr.snoc hs⟩

namespace Run

variable {s₀ s : σ} {tr : List (σ × ε)}

theorem reachable (h : Run step s₀ tr s) : Reachable step s₀ s := ⟨tr, h⟩

/-- A run that goes on from where another one ended. -/
theorem append {s' : σ} {tr' : List (σ × ε)} (h : Run step s₀ tr s) (h' : Run step s tr' s') :
    Run step s₀ (tr ++ tr') s' := by
  induction h' with
  | nil => simpa using h
  | snoc _ hs ih =>
    rw [← List.append_assoc]
    exact ih.snoc hs

/-- Every step of a run is a step of the system from a state the run reaches. -/
theorem step_of_mem {p : σ × ε} (h : Run step s₀ tr s) (hp : p ∈ tr) :
    Reachable step s₀ p.1 ∧ ∃ s', step p.1 p.2 s' := by
  induction h with
  | nil => simp at hp
  | snoc hr hs ih =>
    rcases List.mem_append.mp hp with hp | hp
    · exact ih hp
    · obtain rfl := List.mem_singleton.mp hp
      exact ⟨⟨_, hr⟩, _, hs⟩

/-- A run whose steps all meet `C` is a run of the system restricted to such steps. -/
theorem restrict {C : σ → ε → Prop} (h : Run step s₀ tr s) (hC : ∀ p ∈ tr, C p.1 p.2) :
    Run (fun s e s' => step s e s' ∧ C s e) s₀ tr s := by
  induction h with
  | nil => exact .nil _
  | snoc _ hs ih =>
    have hlast := hC _ (List.mem_append_right _ (List.mem_singleton_self _))
    exact (ih fun p hp => hC p (List.mem_append_left _ hp)).snoc ⟨hs, hlast⟩

/-- Every state a run visits is reachable. -/
theorem reachable_of_visited {t : σ} (h : Run step s₀ tr s) (ht : t ∈ visited tr s) :
    Reachable step s₀ t := by
  rcases mem_visited.mp ht with ⟨e, he⟩ | rfl
  · exact (h.step_of_mem he).1
  · exact h.reachable

/-- What holds at the start and is kept by every step holds at the end of every run. -/
theorem invariant {I : σ → Prop} (h : Run step s₀ tr s) (h₀ : I s₀)
    (hstep : ∀ s e s', I s → step s e s' → I s') : I s := by
  induction h with
  | nil => exact h₀
  | snoc _ hs ih => exact hstep _ _ _ ih hs

/-- What holds at the start and is kept by every step that meets `C` holds at the end of every
run whose steps all meet `C`. -/
theorem invariant_of_steps {I : σ → Prop} {C : σ → ε → Prop} (h : Run step s₀ tr s)
    (hC : ∀ p ∈ tr, C p.1 p.2) (h₀ : I s₀)
    (hstep : ∀ s e s', I s → C s e → step s e s' → I s') : I s := by
  induction h with
  | nil => exact h₀
  | snoc _ hs ih =>
    have hlast := hC _ (List.mem_append_right _ (List.mem_singleton_self _))
    exact hstep _ _ _ (ih fun p hp => hC p (List.mem_append_left _ hp)) hlast hs

/-- It holds in every state the run visits. -/
theorem invariant_of_visited {I : σ → Prop} {C : σ → ε → Prop} {t : σ} (h : Run step s₀ tr s)
    (hC : ∀ p ∈ tr, C p.1 p.2) (h₀ : I s₀)
    (hstep : ∀ s e s', I s → C s e → step s e s' → I s') (ht : t ∈ visited tr s) : I t := by
  induction h with
  | nil =>
    obtain rfl : t = _ := by simpa [visited] using ht
    exact h₀
  | @snoc s s' tr e hr hs ih =>
    have hpre : ∀ p ∈ tr, C p.1 p.2 := fun p hp => hC p (List.mem_append_left _ hp)
    have hsplit : t ∈ visited tr s ∨ t = s' := by
      simpa [visited, or_assoc] using ht
    rcases hsplit with ht | rfl
    · exact ih hpre ht
    · exact (hr.snoc hs).invariant_of_steps hC h₀ hstep

/-- Where each step is matched by steps `step'` of another system, or by none, a run is, too. -/
theorem simulation {α : Type*} {step' : α → α → Prop} {R : σ → α → Prop} {a₀ : α}
    (h : Run step s₀ tr s) (h₀ : R s₀ a₀)
    (hstep : ∀ s e s' a, R s a → step s e s' → ∃ a', R s' a' ∧ Relation.ReflTransGen step' a a') :
    ∃ a, R s a ∧ Relation.ReflTransGen step' a₀ a := by
  induction h with
  | nil => exact ⟨a₀, h₀, .refl⟩
  | snoc _ hs ih =>
    obtain ⟨a, ha, hreach⟩ := ih
    obtain ⟨a', ha', hmatch⟩ := hstep _ _ _ a ha hs
    exact ⟨a', ha', hreach.trans hmatch⟩

/-- `P` holds in every state of a run exactly when every step of it meets `C`, if from any
state on a run with `P` a step leads to `P` exactly when it meets `C`. The invariant `I` is
what the step law may use about the states on the run. -/
theorem states_iff_steps {I P : σ → Prop} {C : σ → ε → Prop} (h : Run step s₀ tr s)
    (hI : I s₀) (hIstep : ∀ s e s', I s → step s e s' → I s') (hP : P s₀)
    (hstep : ∀ s e s', I s → P s → step s e s' → (P s' ↔ C s e)) :
    (∀ t ∈ visited tr s, P t) ↔ ∀ p ∈ tr, C p.1 p.2 := by
  induction h with
  | nil => simp [visited, hP]
  | @snoc s s' tr e hr hs ih =>
    have hIs : I s := hr.invariant hI hIstep
    have hsplit : (∀ t ∈ visited (tr ++ [(s, e)]) s', P t) ↔
        (∀ t ∈ visited tr s, P t) ∧ P s' := by
      simp [visited, or_imp, forall_and, and_assoc]
    rw [hsplit, ih]
    constructor
    · rintro ⟨hC, hP'⟩ p hp
      rcases List.mem_append.mp hp with hp | hp
      · exact hC p hp
      · obtain rfl := List.mem_singleton.mp hp
        have hPs : P s := ih.mpr hC s (by simp)
        exact (hstep _ _ _ hIs hPs hs).mp hP'
    · intro hC
      have hpre : ∀ p ∈ tr, C p.1 p.2 := fun p hp => hC p (List.mem_append_left _ hp)
      have hPs : P s := ih.mpr hpre s (by simp)
      exact ⟨hpre, (hstep _ _ _ hIs hPs hs).mpr
        (hC _ (List.mem_append_right _ (List.mem_singleton_self _)))⟩

end Run

/-- A run from a reachable state. -/
theorem Reachable.run {s₀ s s' : σ} {tr : List (σ × ε)} (h : Reachable step s₀ s)
    (h' : Run step s tr s') : Reachable step s₀ s' := by
  obtain ⟨tr₀, hr⟩ := h
  exact ⟨_, hr.append h'⟩

/-- What holds at the start and is kept by every step holds in every reachable state. -/
theorem Reachable.invariant {I : σ → Prop} {s₀ s : σ} (h : Reachable step s₀ s) (h₀ : I s₀)
    (hstep : ∀ s e s', I s → step s e s' → I s') : I s := by
  obtain ⟨tr, hr⟩ := h
  exact hr.invariant h₀ hstep

end TransitionSystem
