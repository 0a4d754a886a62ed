import Mathlib.Logic.Function.Basic
import Mathlib.Tactic.Common

/-!
# Paths of links

Nodes with one link each, as in a list that is linked in one direction. A path leads from a pointer
through some nodes to another pointer; a list is a path to null.

* `Path`: the nodes that one comes through, `path_append`: a path is cut at any of its nodes;
* `Path.congr`, `Path.redirect`: a path depends on the links of its own nodes only, and the link of
  its last node leads out of it;
* `Path.next_mem`: where it leads back into the path, null is not reached.
-/

namespace LinkedList

variable {N : Type*}

/-- From one pointer to another one, through these nodes. -/
def Path (next : N → Option N) : Option N → List N → Option N → Prop
  | p, [], q => p = q
  | p, a :: l, q => p = some a ∧ Path next (next a) l q

variable {next next' : N → Option N} {p q r : Option N} {l l₁ l₂ : List N} {a : N}

@[simp]
theorem path_nil : Path next p [] q ↔ p = q := Iff.rfl

theorem path_cons : Path next p (a :: l) q ↔ p = some a ∧ Path next (next a) l q := Iff.rfl

/-- Both parts of a path, and where they meet. -/
theorem path_append : Path next p (l₁ ++ l₂) q ↔ ∃ r, Path next p l₁ r ∧ Path next r l₂ q := by
  induction l₁ generalizing p with
  | nil => simp
  | cons a l₁ ih =>
    rw [List.cons_append, path_cons, ih]
    simp only [path_cons, and_assoc, exists_and_left]

/-- A path depends on the links of its own nodes only. -/
theorem Path.congr (h : Path next p l q) (hnext : ∀ n ∈ l, next' n = next n) :
    Path next' p l q := by
  induction l generalizing p with
  | nil => exact h
  | cons a l ih =>
    refine ⟨h.1, ?_⟩
    rw [hnext a List.mem_cons_self]
    exact ih h.2 fun n hn => hnext n (List.mem_cons_of_mem _ hn)

/-- The pointer that a path to null begins with. -/
theorem Path.head? (h : Path next p l none) : p = l.head? := by
  cases l with
  | nil => exact h
  | cons a l => exact h.1

/-- The link of its last node leads out of a path. -/
theorem Path.redirect (h : Path next p (l ++ [a]) q) (ha : next' a = r)
    (hnext : ∀ n ∈ l, next' n = next n) : Path next' p (l ++ [a]) r := by
  obtain ⟨s, hl, rfl, -⟩ := path_append.mp h
  exact path_append.mpr ⟨some a, hl.congr hnext, rfl, ha⟩

/-- The links of a path lead to its nodes, and one of them out of it. -/
theorem Path.next_mem_or (h : Path next p l q) : (p = q ∨ ∃ b ∈ l, p = some b) ∧
    ∀ b ∈ l, next b = q ∨ ∃ c ∈ l, next b = some c := by
  induction l generalizing p with
  | nil => exact ⟨.inl h, fun b hb => absurd hb List.not_mem_nil⟩
  | cons d l ih =>
    obtain ⟨rfl, h⟩ := h
    obtain ⟨hd, hl⟩ := ih h
    have hcons : ∀ {b : N}, (next b = q ∨ ∃ c ∈ l, next b = some c) →
        next b = q ∨ ∃ c ∈ d :: l, next b = some c := by
      rintro b (hq | ⟨c, hc, heq⟩)
      · exact .inl hq
      · exact .inr ⟨c, List.mem_cons_of_mem _ hc, heq⟩
    exact ⟨.inr ⟨d, List.mem_cons_self, rfl⟩,
      List.forall_mem_cons.mpr ⟨hcons hd, fun b hb => hcons (hl b hb)⟩⟩

/-- Where the last of them leads back into the path, all of them stay in it. -/
theorem Path.next_mem (h : Path next p l (some a)) (ha : a ∈ l) :
    (∃ b ∈ l, p = some b) ∧ ∀ b ∈ l, ∃ c ∈ l, next b = some c := by
  obtain ⟨hp, hl⟩ := h.next_mem_or
  refine ⟨hp.elim (fun heq => ⟨a, ha, heq⟩) id, fun b hb => ?_⟩
  exact (hl b hb).elim (fun heq => ⟨a, ha, heq⟩) id

end LinkedList
