import Mathlib.Data.Nat.Notation
import Mathlib.Tactic.ByContra

/-!
# Computations that may fail

What a chain of `Except` computations returned, read from its end to its start. `bind_eq_ok`
peels one computation off a chain that succeeded; `bind_eq_error` locates a failure. `require`
is an assertion, `loop` a `while` loop with a bound on its number of rounds.
-/

namespace Result

universe u

variable {ε : Type*} {α β : Type u}

theorem bind_eq_ok {x : Except ε α} {f : α → Except ε β} {b : β} :
    (x >>= f) = .ok b ↔ ∃ a, x = .ok a ∧ f a = .ok b := by
  cases x with
  | error e => simp [bind, Except.bind]
  | ok a => simp [bind, Except.bind]

theorem bind_eq_error {x : Except ε α} {f : α → Except ε β} {e : ε} :
    (x >>= f) = .error e ↔ x = .error e ∨ ∃ a, x = .ok a ∧ f a = .error e := by
  cases x with
  | error e' => simp [bind, Except.bind]
  | ok a => simp [bind, Except.bind]

@[simp]
theorem ok_bind (a : α) (f : α → Except ε β) : (Except.ok a >>= f) = f a := rfl

@[simp]
theorem error_bind (e : ε) (f : α → Except ε β) : (Except.error e >>= f) = .error e := rfl

@[simp]
theorem pure_eq_ok {a b : α} : (pure a : Except ε α) = .ok b ↔ a = b := by
  simp [pure, Except.pure]

@[simp]
theorem pure_ne_error {a : α} {e : ε} : (pure a : Except ε α) ≠ .error e := by
  simp [pure, Except.pure]

@[simp]
theorem throw_ne_ok {e : ε} {b : α} : (throw e : Except ε α) ≠ .ok b := by
  simp [throw, throwThe, MonadExceptOf.throw]

@[simp]
theorem throw_eq_error {e e' : ε} : (throw e : Except ε α) = .error e' ↔ e = e' := by
  simp [throw, throwThe, MonadExceptOf.throw]

/-- A function of what a chain returns is one of what the end of the chain returns. -/
theorem map_chain {γ : Type u} {x : Except ε α} {f : α → Except ε β} {g : β → γ} :
    (x >>= f).map g = x >>= fun a => (f a).map g := by
  cases x <;> rfl

/-- Fail with `e` unless `p` holds. -/
def require (p : Prop) [Decidable p] (e : ε) : Except ε Unit :=
  if p then .ok () else .error e

@[simp]
theorem require_eq_ok {p : Prop} [Decidable p] {e : ε} {u : Unit} :
    require p e = .ok u ↔ p := by
  unfold require
  split <;> simp [*]

@[simp]
theorem require_eq_error {p : Prop} [Decidable p] {e e' : ε} :
    require p e = .error e' ↔ ¬p ∧ e = e' := by
  unfold require
  split <;> simp [*]

/-- Repeat `body` while `test` holds, for at most `n` rounds. -/
def loop (test : α → Bool) (body : α → Except ε α) : ℕ → α → Except ε α
  | 0, a => .ok a
  | n + 1, a => if test a then body a >>= loop test body n else .ok a

/-- The rule of a loop: what each round keeps holds at the end, and the test fails there if a
measure that each round lowers was within the bound. -/
theorem loop_rule {test : α → Bool} {body : α → Except ε α} {I : α → Prop} {μ : α → ℕ}
    (hbody : ∀ a b, I a → test a = true → body a = .ok b → I b ∧ μ b < μ a)
    (htest : ∀ a, test a = true → 0 < μ a) :
    ∀ {n a b}, μ a ≤ n → I a → loop test body n a = .ok b → I b ∧ test b = false
  | 0, a, b, hμ, hI, h => by
      obtain rfl : a = b := by simpa [loop] using h
      refine ⟨hI, ?_⟩
      by_contra hne
      have := htest a (by simpa using hne)
      omega
  | n + 1, a, b, hμ, hI, h => by
      rw [loop] at h
      split at h
      next ht =>
        obtain ⟨c, hc, hb⟩ := bind_eq_ok.mp h
        obtain ⟨hIc, hlt⟩ := hbody a c hI ht hc
        exact loop_rule hbody htest (by omega) hIc hb
      next ht =>
        obtain rfl : a = b := by simpa using h
        exact ⟨hI, by simpa using ht⟩

/-- A loop fails only where a round fails from a state that the earlier rounds keep. -/
theorem loop_error {test : α → Bool} {body : α → Except ε α} {I : α → Prop} {e : ε}
    (hbody : ∀ a b, I a → test a = true → body a = .ok b → I b) :
    ∀ {n a}, I a → loop test body n a = .error e →
      ∃ b, I b ∧ test b = true ∧ body b = .error e
  | 0, a, _, h => by simp [loop] at h
  | n + 1, a, hI, h => by
      rw [loop] at h
      split at h
      next ht =>
        rcases bind_eq_error.mp h with h | ⟨c, hc, h⟩
        · exact ⟨a, hI, ht, h⟩
        · exact loop_error hbody (hbody a c hI ht hc) h
      next => simp at h

end Result
