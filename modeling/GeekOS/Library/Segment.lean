import GeekOS.Library.DoublyLinked

/-!
# Segments of doubly linked lists

A segment is a row of nodes that are linked to each other in both directions, with a link that leads
out of it at each end. A list is a segment out of which both links are null. To cut a list, to put
two of them together or to take a node out one stores into the links at the seams only.

* `Segment`: the links of the nodes, one after the other;
* `segment_append`: a segment is cut between any two of its nodes;
* `Segment.setNext`, `Segment.setPrev`: what a store into the link at one of its ends does;
* `Segment.isDoublyLinked`: the list whose links these are.
-/

namespace LinkedList

variable {N : Type*}

/-- The nodes are linked to each other, and out of them to `before` and to `after`. -/
def Segment (link : N → Link N) : Option N → List N → Option N → Prop
  | _, [], _ => True
  | before, a :: nodes, after =>
      link a = ⟨before, nodes.head?.or after⟩ ∧ Segment link (some a) nodes after

variable {link link' : N → Link N} {before after before' after' : Option N}
  {nodes l₁ l₂ : List N} {a n : N}

@[simp]
theorem segment_nil : Segment link before [] after := trivial

@[simp]
theorem segment_singleton : Segment link before [a] after ↔ link a = ⟨before, after⟩ := by
  simp [Segment]

/-- A segment depends on the links of its own nodes only. -/
theorem Segment.congr (h : Segment link before nodes after)
    (hlink : ∀ n ∈ nodes, link' n = link n) : Segment link' before nodes after := by
  induction nodes generalizing before with
  | nil => trivial
  | cons a nodes ih =>
    refine ⟨(hlink a List.mem_cons_self).trans h.1, ih h.2 fun n hn => ?_⟩
    exact hlink n (List.mem_cons_of_mem _ hn)

/-- Both parts of a segment, and where they meet. -/
theorem segment_append : Segment link before (l₁ ++ l₂) after ↔
    Segment link before l₁ (l₂.head?.or after) ∧
      Segment link (l₁.getLast?.or before) l₂ after := by
  induction l₁ generalizing before with
  | nil => simp
  | cons a l₁ ih =>
    -- behind the first part one comes to the second one, or out of it where it has no nodes
    have hhead : (l₁ ++ l₂).head?.or after = l₁.head?.or (l₂.head?.or after) := by
      cases l₁ <;> rfl
    have hlast : (a :: l₁).getLast?.or before = l₁.getLast?.or (some a) := by
      cases l₁ with
      | nil => rfl
      | cons b l₁ => rw [List.getLast?_cons_cons, List.getLast?_cons]; rfl
    rw [List.cons_append, Segment, Segment, ih, hhead, hlast, and_assoc]

/-- The links of a node lead to its neighbours. -/
theorem Segment.link_eq (h : Segment link none (l₁ ++ a :: l₂) none) :
    link a = ⟨l₁.getLast?, l₂.head?⟩ := by
  have hlink := (segment_append.mp h).2.1
  rwa [Option.or_none, Option.or_none] at hlink

/-- Forward one comes through the nodes. -/
theorem Segment.chain (h : Segment link before nodes none) : Chain link nodes.head? nodes := by
  induction nodes generalizing before with
  | nil => exact .nil
  | cons a nodes ih =>
    refine .cons ?_
    rw [h.1, Option.or_none]
    exact ih h.2

/-- Turned around, a segment goes through the nodes in the opposite order. -/
theorem Segment.flip (h : Segment link before nodes after) :
    Segment (flipAll link) after nodes.reverse before := by
  induction nodes generalizing before with
  | nil => trivial
  | cons a nodes ih =>
    rw [List.reverse_cons, segment_append]
    refine ⟨ih h.2, segment_singleton.mpr ?_⟩
    rw [flipAll, h.1, List.getLast?_reverse]
    rfl

/-- The list of a segment out of which no link leads. -/
theorem Segment.isDoublyLinked (h : Segment link none nodes none) (hnodup : nodes.Nodup) :
    IsDoublyLinked (Head.of nodes) link nodes where
  forward := h.chain
  backward := by
    -- the list turned around has the same ends, the other way round
    have hchain := h.flip.chain
    rwa [List.head?_reverse] at hchain
  nodup := hnodup

/-- The ends of a list with more than one node are different. -/
theorem Head.first_ne_last (hnodup : nodes.Nodup) (hlen : 1 < nodes.length) :
    (Head.of nodes).first ≠ (Head.of nodes).last := by
  rcases nodes with _ | ⟨a, _ | ⟨b, nodes⟩⟩
  · simp at hlen
  · simp at hlen
  · intro heq
    apply (List.nodup_cons.mp hnodup).1
    apply List.mem_of_getLast?
    rw [← List.getLast?_cons_cons]
    exact heq.symm

/-- The two links of each pair of neighbours lead to each other. -/
theorem Segment.next_iff_prev (h : Segment link none nodes none) (ha : a ∈ nodes) :
    (link a).next = some n ↔ n ∈ nodes ∧ (link n).prev = some a := by
  constructor
  · intro hnext
    obtain ⟨l₁, l₂, rfl⟩ := List.append_of_mem ha
    -- what comes next is the first node of what stands behind it
    rw [h.link_eq] at hnext
    obtain ⟨l₃, rfl⟩ := List.head?_eq_some_iff.mp hnext
    have hback : Segment link none ((l₁ ++ [a]) ++ n :: l₃) none := by rwa [List.append_assoc]
    refine ⟨by simp, ?_⟩
    rw [hback.link_eq, List.getLast?_concat]
  · rintro ⟨hn, hprev⟩
    obtain ⟨l₁, l₂, rfl⟩ := List.append_of_mem hn
    rw [h.link_eq] at hprev
    obtain ⟨l₃, rfl⟩ := List.getLast?_eq_some_iff.mp hprev
    rw [List.append_assoc] at h
    rw [h.link_eq]
    rfl

section Writes

variable [DecidableEq N]

theorem setNext_self : setNext link a after' a = ⟨(link a).prev, after'⟩ := Function.update_self ..

theorem setPrev_self : setPrev link a before' a = ⟨before', (link a).next⟩ :=
  Function.update_self ..

theorem setNext_of_ne (hn : n ≠ a) : setNext link a after' n = link n := Function.update_of_ne hn ..

theorem setPrev_of_ne (hn : n ≠ a) : setPrev link a before' n = link n :=
  Function.update_of_ne hn ..

/-- A store into a node outside of the segment. -/
theorem Segment.setNext_of_not_mem (h : Segment link before nodes after) (ha : a ∉ nodes) :
    Segment (setNext link a after') before nodes after :=
  h.congr fun _ hn => setNext_of_ne (ne_of_mem_of_not_mem hn ha)

theorem Segment.setPrev_of_not_mem (h : Segment link before nodes after) (ha : a ∉ nodes) :
    Segment (setPrev link a before') before nodes after :=
  h.congr fun _ hn => setPrev_of_ne (ne_of_mem_of_not_mem hn ha)

/-- The link that leads out of the segment at its end. -/
theorem Segment.setNext (h : Segment link before (nodes ++ [a]) after) (ha : a ∉ nodes) :
    Segment (setNext link a after') before (nodes ++ [a]) after' := by
  obtain ⟨hnodes, hlast⟩ := segment_append.mp h
  rw [segment_singleton] at hlast
  refine segment_append.mpr ⟨hnodes.setNext_of_not_mem ha, segment_singleton.mpr ?_⟩
  rw [setNext_self, hlast]

/-- The link that leads out of it at its beginning. -/
theorem Segment.setPrev (h : Segment link before (a :: nodes) after) (ha : a ∉ nodes) :
    Segment (setPrev link a before') before' (a :: nodes) after := by
  refine ⟨?_, h.2.setPrev_of_not_mem ha⟩
  rw [setPrev_self, h.1]

end Writes

end LinkedList
