import Mathlib.Order.Basic
import GeekOS.Library.Run

/-!
# Progress of labelled transition systems

What a run must come to. A finite run is bounded by a potential: a number that no step lowers and
that some steps raise. An infinite run, a `Behaviour`, comes to a goal if it is fair and if there
is a rank which, in every state in front of the goal, one event is sure to lower.

* `Run.add_countP_le`: a potential bounds how often steps of one kind are taken;
* `Behaviour.Fair`: no event is put off for ever, unless it has nothing to do;
* `Behaviour.leadsTo_of_rank`: the rule of the helpful event.
-/

namespace TransitionSystem

variable {σ ε : Type*} {step : σ → ε → σ → Prop}

/-! ## Counting steps -/

section Potential

variable {s₀ s : σ} {tr : List (σ × ε)} {C : σ → ε → Prop} [∀ s e, Decidable (C s e)]

/-- If no step lowers `μ`, and the steps of kind `C` raise it, then it has risen by their number
at least. -/
theorem Run.add_countP_le (h : Run step s₀ tr s) {I : σ → Prop} {μ : σ → ℕ} (h₀ : I s₀)
    (hI : ∀ s e s', I s → step s e s' → I s')
    (hμ : ∀ s e s', I s → step s e s' → μ s + (if C s e then 1 else 0) ≤ μ s') :
    μ s₀ + tr.countP (fun p => C p.1 p.2) ≤ μ s := by
  induction h with
  | nil => simp
  | @snoc s s' tr e hr hs ih =>
    have hrise := hμ s e s' (hr.invariant h₀ hI) hs
    rw [List.countP_append, List.countP_singleton]
    simp only [decide_eq_true_eq]
    omega

/-- If no step raises `μ`, and the steps of kind `C` lower it, then there are no more of them than
what it started with. -/
theorem Run.countP_add_le (h : Run step s₀ tr s) {I : σ → Prop} {μ : σ → ℕ} (h₀ : I s₀)
    (hI : ∀ s e s', I s → step s e s' → I s')
    (hμ : ∀ s e s', I s → step s e s' → μ s' + (if C s e then 1 else 0) ≤ μ s) :
    tr.countP (fun p => C p.1 p.2) + μ s ≤ μ s₀ := by
  induction h with
  | nil => simp
  | @snoc s s' tr e hr hs ih =>
    have hfall := hμ s e s' (hr.invariant h₀ hI) hs
    rw [List.countP_append, List.countP_singleton]
    simp only [decide_eq_true_eq]
    omega

end Potential

/-! ## Infinite runs -/

/-- An infinite run: the states and the events between them. -/
structure Behaviour (step : σ → ε → σ → Prop) where
  state : ℕ → σ
  event : ℕ → ε
  next : ∀ n, step (state n) (event n) (state (n + 1))

namespace Behaviour

variable (b : Behaviour step)

/-- Every event comes again and again, unless it has nothing to do: `idle s e`. -/
def Fair (idle : σ → ε → Prop) : Prop :=
  ∀ e n, ∃ m, n ≤ m ∧ (b.event m = e ∨ idle (b.state m) e)

/-- Whenever `P` holds, `Q` holds then or later. -/
def LeadsTo (P Q : σ → Prop) : Prop :=
  ∀ n, P (b.state n) → ∃ m, n ≤ m ∧ Q (b.state m)

variable {b}

/-- The behaviour of a system that computes its steps, under a given schedule. -/
def ofSchedule (exec : σ → ε → σ) (s₀ : σ) (event : ℕ → ε) :
    Behaviour fun s e s' => s' = exec s e where
  state n := n.rec s₀ fun k s => exec s (event k)
  event := event
  next _ := rfl

/-- The states of a behaviour are reachable from its first one. -/
theorem reachable (n : ℕ) : Reachable step (b.state 0) (b.state n) := by
  induction n with
  | zero => exact .refl _
  | succ n ih => exact ih.tail (b.next n)

/-- While one event is awaited, nothing else happens to the rank: either the goal is reached, or
the rank gets lower, or both are still as they were. -/
theorem reaches_or_waits {P Q : σ → Prop} {rank : σ → ℕ} {helpful : σ → ε} {n : ℕ}
    (hP : P (b.state n))
    (hstep : ∀ s e s', P s → step s e s' → Q s' ∨ P s' ∧ (rank s' < rank s ∨
      rank s' = rank s ∧ helpful s' = helpful s ∧ e ≠ helpful s)) (d : ℕ) :
    (∃ m, n ≤ m ∧ (Q (b.state m) ∨
        P (b.state m) ∧ rank (b.state m) < rank (b.state n))) ∨
      P (b.state (n + d)) ∧ rank (b.state (n + d)) = rank (b.state n) ∧
        helpful (b.state (n + d)) = helpful (b.state n) := by
  induction d with
  | zero => exact .inr ⟨hP, rfl, rfl⟩
  | succ d ih =>
    rcases ih with ⟨m, hn, h⟩ | ⟨hP, hrank, hhelp⟩
    · exact .inl ⟨m, hn, h⟩
    · rcases hstep _ _ _ hP (b.next (n + d)) with hQ | ⟨hP', hlt | ⟨hrank', hhelp', -⟩⟩
      · exact .inl ⟨n + d + 1, by omega, .inl hQ⟩
      · exact .inl ⟨n + d + 1, by omega, .inr ⟨hP', hrank ▸ hlt⟩⟩
      · exact .inr ⟨hP', hrank'.trans hrank, hhelp'.trans hhelp⟩

/-- The rule of the helpful event. In every state with `P` there is one event that is not idle and
lowers the rank or reaches `Q`; every other event reaches `Q`, lowers the rank, or leaves the rank
and the helpful event as they are. Then a fair behaviour comes from `P` to `Q`. -/
theorem leadsTo_of_rank {P Q : σ → Prop} {idle : σ → ε → Prop} (hfair : b.Fair idle)
    (rank : σ → ℕ) (helpful : σ → ε) (hbusy : ∀ s, P s → ¬idle s (helpful s))
    (hstep : ∀ s e s', P s → step s e s' → Q s' ∨ P s' ∧ (rank s' < rank s ∨
      rank s' = rank s ∧ helpful s' = helpful s ∧ e ≠ helpful s)) :
    b.LeadsTo P Q := by
  intro n
  induction hr : rank (b.state n) using Nat.strongRecOn generalizing n with
  | _ r ih =>
    intro hP
    -- from a state with a lower rank the induction goes on
    have hlower : ∀ m, n ≤ m → P (b.state m) → rank (b.state m) < rank (b.state n) →
        ∃ m, n ≤ m ∧ Q (b.state m) := fun m hm hPm hlt => by
      obtain ⟨m', hle, hQ⟩ := ih _ (hr ▸ hlt) m rfl hPm
      exact ⟨m', by omega, hQ⟩
    obtain ⟨m, hm, hcomes⟩ := hfair (helpful (b.state n)) n
    obtain ⟨d, rfl⟩ := Nat.exists_eq_add_of_le hm
    rcases reaches_or_waits hP hstep d with ⟨m, hn, hQ | ⟨hPm, hlt⟩⟩ | ⟨hPd, hrank, hhelp⟩
    · exact ⟨m, hn, hQ⟩
    · exact hlower m hn hPm hlt
    · have hevent : b.event (n + d) = helpful (b.state (n + d)) := by
        rw [hhelp]
        exact hcomes.resolve_right fun hidle => hbusy _ hPd (hhelp ▸ hidle)
      rcases hstep _ _ _ hPd (b.next (n + d)) with hQ | ⟨hP', hlt | ⟨-, -, hne⟩⟩
      · exact ⟨n + d + 1, by omega, hQ⟩
      · exact hlower (n + d + 1) (by omega) hP' (hrank ▸ hlt)
      · exact absurd hevent hne

end Behaviour

end TransitionSystem
