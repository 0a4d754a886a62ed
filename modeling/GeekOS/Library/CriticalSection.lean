import Mathlib.Logic.Relation

/-!
# Critical sections

Threads go through the small steps of a piece of code on shared data, and one of them at a time. A
thread may be interrupted between any two of its steps, and yet what becomes of the data is what
the threads that have been through the section make of it one after the other, each of them from
the entry of the code to its end.

* `Code`, `State`, `Step`: the code of the section and its small steps;
* `Code.Serial`: the threads one after the other;
* `Code.Serializable.steps`: the small steps come to the same;
* `Code.Serial.invariant`: the rule for what the threads make of the data;
* `Code.Runs.of_alone`: where a thread that has begun will come to.
-/

namespace CriticalSection

variable {ι τ δ : Type*}

/-- The code of a section: its entry, and what a thread does to its own state and to the shared
data in one step. There is no step at the end. -/
structure Code (ι τ δ : Type*) where
  entry : τ
  body : ι → τ → δ → Option (τ × δ)

/-- The shared data, the thread that is inside, and those that have left, the last one at the
end. -/
structure State (ι τ δ : Type*) where
  data : δ
  inside : Option (ι × τ)
  left : List ι

/-- A thread enters the section when nobody is inside, goes a step further, or leaves. -/
inductive Step (c : Code ι τ δ) : State ι τ δ → State ι τ δ → Prop
  | enter (i : ι) (d : δ) (left : List ι) :
      Step c ⟨d, none, left⟩ ⟨d, some (i, c.entry), left⟩
  | body {i : ι} {l l' : τ} {d d' : δ} {left : List ι} (h : c.body i l d = some (l', d')) :
      Step c ⟨d, some (i, l), left⟩ ⟨d', some (i, l'), left⟩
  | leave {i : ι} {l : τ} {d : δ} {left : List ι} (h : c.body i l d = none) :
      Step c ⟨d, some (i, l), left⟩ ⟨d, none, left ++ [i]⟩

namespace Code

variable {c : Code ι τ δ} {i : ι} {d d' d₀ : δ}

/-- The steps of one thread, while the others are still. -/
def Alone (c : Code ι τ δ) (i : ι) : τ × δ → τ × δ → Prop :=
  Relation.ReflTransGen fun p q => c.body i p.1 p.2 = some q

/-- What a thread makes of the data, from the entry to the end. -/
def Runs (c : Code ι τ δ) (i : ι) (d d' : δ) : Prop :=
  ∃ l, c.Alone i (c.entry, d) (l, d') ∧ c.body i l d' = none

/-- What the threads of a list make of the data, one after the other. -/
inductive Serial (c : Code ι τ δ) (d₀ : δ) : List ι → δ → Prop
  | nil : Serial c d₀ [] d₀
  | snoc {left : List ι} {i : ι} {d d' : δ} (h : Serial c d₀ left d) (hi : c.Runs i d d') :
      Serial c d₀ (left ++ [i]) d'

/-- The data is what those make of it that have left, and the one inside as far as it has come. -/
def Serializable (c : Code ι τ δ) (d₀ : δ) (s : State ι τ δ) : Prop :=
  ∃ d, c.Serial d₀ s.left d ∧
    match s.inside with
    | none => s.data = d
    | some (i, l) => c.Alone i (c.entry, d) (l, s.data)

theorem Serializable.step {s s' : State ι τ δ} (h : c.Serializable d₀ s) (hs : Step c s s') :
    c.Serializable d₀ s' := by
  obtain ⟨d, hserial, hinside⟩ := h
  cases hs with
  | enter i d left =>
    obtain rfl := hinside
    exact ⟨_, hserial, .refl⟩
  | body hbody => exact ⟨d, hserial, hinside.tail hbody⟩
  | leave hend => exact ⟨_, hserial.snoc ⟨_, hinside, hend⟩, rfl⟩

/-- However the steps of the threads come one after the other, so do the threads. -/
theorem Serializable.steps {s s' : State ι τ δ} (h : c.Serializable d₀ s)
    (hs : Relation.ReflTransGen (Step c) s s') : c.Serializable d₀ s' := by
  induction hs with
  | refl => exact h
  | tail _ hs ih => exact ih.step hs

/-- What every thread keeps, all of them do. -/
theorem Serial.invariant {I : List ι → δ → Prop} {left : List ι} (h : c.Serial d₀ left d)
    (h₀ : I [] d₀) (hrun : ∀ left i d d', I left d → c.Runs i d d' → I (left ++ [i]) d') :
    I left d := by
  induction h with
  | nil => exact h₀
  | snoc _ hi ih => exact hrun _ _ _ _ ih hi

/-- What every step keeps. -/
theorem Alone.invariant {I : τ × δ → Prop} {p q : τ × δ} (h : c.Alone i p q) (hp : I p)
    (hstep : ∀ p q, I p → c.body i p.1 p.2 = some q → I q) : I q := by
  induction h with
  | refl => exact hp
  | tail _ hs ih => exact hstep _ _ ih hs

/-- A thread that has begun will come to the end that it would have come to from the entry. -/
theorem Runs.of_alone {p : τ × δ} (h : c.Runs i d d') (hp : c.Alone i (c.entry, d) p) :
    ∃ l, c.Alone i p (l, d') ∧ c.body i l d' = none := by
  obtain ⟨l, hl, hend⟩ := h
  -- the code has one next step at most
  have hunique : Relator.RightUnique fun p q : τ × δ => c.body i p.1 p.2 = some q :=
    fun _ _ _ hq hr => Option.some.inj (hq.symm.trans hr)
  rcases Relation.ReflTransGen.total_of_right_unique hunique hl hp with hback | hon
  · rcases Relation.ReflTransGen.cases_head hback with rfl | ⟨q, hq, -⟩
    · exact ⟨l, .refl, hend⟩
    · exact absurd (hend.symm.trans hq) (Option.some_ne_none q).symm
  · exact ⟨l, hon, hend⟩

theorem Runs.unique {d₁ d₂ : δ} (h₁ : c.Runs i d d₁) (h₂ : c.Runs i d d₂) : d₁ = d₂ := by
  obtain ⟨l, hl, hend⟩ := h₂
  obtain ⟨l', hl', -⟩ := h₁.of_alone hl
  rcases Relation.ReflTransGen.cases_head hl' with heq | ⟨q, hq, -⟩
  · exact (congrArg Prod.snd heq).symm
  · exact absurd (hend.symm.trans hq) (Option.some_ne_none q).symm

end Code

end CriticalSection
