import Mathlib.Logic.Relation
import Mathlib.Order.WellFounded

/-!
# Trees given by parents

A forest is a map from each node to its parent, if it has one, along which every way up comes to
an end. `AtOrAbove parent i j` says that `i` is `j` or one of its ancestors.

* `atOrAbove_iff`: what is at or above a node is the node, or at or above its parent;
* `IsForest.not_atOrAbove_parent`: a node is not above itself, so that the two do not overlap.
-/

namespace ParentTree

open Relation

variable {N : Type*} {parent : N → Option N} {i j p : N}

/-- `p` is the parent of `j`. -/
def IsParent (parent : N → Option N) (p j : N) : Prop := parent j = some p

/-- `i` is `j`, or an ancestor of it. -/
def AtOrAbove (parent : N → Option N) (i j : N) : Prop := ReflTransGen (IsParent parent) i j

/-- Every way up ends. -/
def IsForest (parent : N → Option N) : Prop := WellFounded (IsParent parent)

theorem AtOrAbove.refl (i : N) : AtOrAbove parent i i := ReflTransGen.refl

/-- What is above the parent is above the node. -/
theorem AtOrAbove.of_parent (hp : parent j = some p) (h : AtOrAbove parent i p) :
    AtOrAbove parent i j :=
  ReflTransGen.tail h hp

theorem AtOrAbove.trans {k : N} (h : AtOrAbove parent i j) (h' : AtOrAbove parent j k) :
    AtOrAbove parent i k :=
  ReflTransGen.trans h h'

theorem atOrAbove_iff : AtOrAbove parent i j ↔ i = j ∨ ∃ p ∈ parent j, AtOrAbove parent i p := by
  constructor
  · intro h
    rcases ReflTransGen.cases_tail h with rfl | ⟨p, hip, hp⟩
    · exact .inl rfl
    · exact .inr ⟨p, hp, hip⟩
  · rintro (rfl | ⟨p, hp, hip⟩)
    · exact .refl i
    · exact .of_parent hp hip

/-- A node is not at or above its parent. -/
theorem IsForest.not_atOrAbove_parent (h : IsForest parent) (hp : parent j = some p) :
    ¬AtOrAbove parent j p := by
  intro hjp
  have hcycle : TransGen (IsParent parent) j j := TransGen.tail' hjp hp
  exact h.transGen.irrefl.irrefl j hcycle

/-- A depth that grows on the way down makes a forest. -/
theorem isForest_of_depth (depth : N → ℕ) (h : ∀ j p, parent j = some p → depth p < depth j) :
    IsForest parent :=
  Subrelation.wf (fun {p j} hp => h j p hp) (measure depth).wf

end ParentTree
