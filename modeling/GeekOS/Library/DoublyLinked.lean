import GeekOS.Library.LinkedList

/-!
# Doubly linked lists, in both directions

The list of `LinkedList`, with the links that lead backward. Turning a list around exchanges its
two ends and the two links of each node, so what is proved for one direction holds for the other.

* `IsDoublyLinked`: forward one comes through the nodes, backward through the same nodes in the
  opposite order;
* `insertBetween`: the links after a node has been put between two neighbours;
* `IsDoublyLinked.insertBetween`: which list these are the links of.
-/

namespace LinkedList

variable {N : Type*}

/-- The links of a node, turned around. -/
def Link.flip (l : Link N) : Link N := ⟨l.next, l.prev⟩

/-- The ends of a list, turned around. -/
def Head.flip (head : Head N) : Head N := ⟨head.last, head.first⟩

/-- The links of all nodes, turned around. -/
def flipAll (link : N → Link N) : N → Link N := fun n => (link n).flip

/-- The ends of a list of these nodes. -/
def Head.of (nodes : List N) : Head N := ⟨nodes.head?, nodes.getLast?⟩

/-- Forward from its first node the list goes through `nodes`, backward from its last one through
the same nodes in the opposite order, and each node is on it once. -/
structure IsDoublyLinked (head : Head N) (link : N → Link N) (nodes : List N) : Prop where
  forward : Chain link head.first nodes
  backward : Chain (flipAll link) head.last nodes.reverse
  nodup : nodes.Nodup

section Writes

variable [DecidableEq N]

/-- Store into one link of a node. -/
def setNext (link : N → Link N) (n : N) (next : Option N) : N → Link N :=
  Function.update link n { link n with next }

@[inherit_doc setNext]
def setPrev (link : N → Link N) (n : N) (prev : Option N) : N → Link N :=
  Function.update link n { link n with prev }

/-- The links when `node` has been put between two neighbours. -/
def insertBetween (link : N → Link N) (before : Option N) (node : N) (after : Option N) :
    N → Link N := fun n =>
  if n = node then ⟨before, after⟩
  else {
    prev := if after = some n then some node else (link n).prev
    next := if before = some n then some node else (link n).next }

end Writes

variable {head : Head N} {link link' : N → Link N} {first : Option N} {nodes l₁ l₂ : List N}
  {node a : N}

@[simp]
theorem flipAll_flipAll : flipAll (flipAll link) = link := rfl

/-- A list that is turned around. -/
theorem IsDoublyLinked.flip (h : IsDoublyLinked head link nodes) :
    IsDoublyLinked head.flip (flipAll link) nodes.reverse :=
  ⟨h.backward, by simpa [Head.flip] using h.forward, List.nodup_reverse.mpr h.nodup⟩

theorem IsDoublyLinked.first_eq (h : IsDoublyLinked head link nodes) : head.first = nodes.head? :=
  h.forward.head?.symm

theorem IsDoublyLinked.last_eq (h : IsDoublyLinked head link nodes) :
    head.last = nodes.getLast? := by
  simpa [Head.flip] using h.flip.first_eq

/-- What a chain is from one of its nodes on. -/
theorem Chain.drop (h : Chain link first (l₁ ++ l₂)) : Chain link l₂.head? l₂ := by
  induction l₁ generalizing first with
  | nil =>
    have hfirst : l₂.head? = first := h.head?
    rw [hfirst]
    exact h
  | cons b l₁ ih =>
    cases h with
    | cons h => exact ih h

/-- The link of a node leads to the node behind it. -/
theorem Chain.next_eq (h : Chain link first (l₁ ++ a :: l₂)) : (link a).next = l₂.head? := by
  cases h.drop with
  | cons h => exact h.head?.symm

theorem IsDoublyLinked.next_eq (h : IsDoublyLinked head link (l₁ ++ a :: l₂)) :
    (link a).next = l₂.head? := h.forward.next_eq

/-- The link of a node leads to the node in front of it. -/
theorem IsDoublyLinked.prev_eq (h : IsDoublyLinked head link (l₁ ++ a :: l₂)) :
    (link a).prev = l₁.getLast? := by
  have hflip : IsDoublyLinked head.flip (flipAll link) (l₂.reverse ++ a :: l₁.reverse) := by
    simpa using h.flip
  simpa [flipAll, Link.flip] using hflip.next_eq

/-- A list depends on the links of its own nodes only. -/
theorem IsDoublyLinked.congr (h : IsDoublyLinked head link nodes)
    (hlink : ∀ n ∈ nodes, link' n = link n) : IsDoublyLinked head link' nodes where
  forward := h.forward.congr fun n hn => by rw [hlink n hn]
  backward := h.backward.congr fun n hn => by
    rw [flipAll, flipAll, hlink n (List.mem_reverse.mp hn)]
  nodup := h.nodup

variable [DecidableEq N]

/-- Turned around, the node is put between the neighbours in the opposite order. -/
theorem flipAll_insertBetween {before after : Option N} :
    flipAll (insertBetween link before node after) =
      insertBetween (flipAll link) after node before := by
  funext n
  unfold flipAll insertBetween
  split <;> rfl

theorem insertBetween_self {before after : Option N} :
    insertBetween link before node after node = ⟨before, after⟩ := if_pos rfl

/-- The links of the other nodes stay as they were. -/
theorem insertBetween_of_ne {n : N} {before after : Option N} (hn : n ≠ node)
    (hbefore : before ≠ some n) (hafter : after ≠ some n) :
    insertBetween link before node after n = link n := by
  rw [insertBetween, if_neg hn, if_neg hbefore, if_neg hafter]

/-- Forward one comes to the node where it has been put. -/
theorem Chain.insertBetween (h : Chain link first (l₁ ++ l₂)) (hnodup : (l₁ ++ l₂).Nodup)
    (hnode : node ∉ l₁ ++ l₂) :
    Chain (insertBetween link l₁.getLast? node l₂.head?) (l₁ ++ node :: l₂).head?
      (l₁ ++ node :: l₂) := by
  induction l₁ generalizing first with
  | nil =>
    refine .cons ?_
    rw [insertBetween_self]
    refine Chain.congr h.drop fun n hn => ?_
    have hne : n ≠ node := fun heq => hnode (heq ▸ hn)
    simp [LinkedList.insertBetween, hne]
  | cons b l₁ ih =>
    obtain ⟨hb, hnodup⟩ := List.nodup_cons.mp hnodup
    have hbnode : b ≠ node := fun heq => hnode (heq ▸ List.mem_cons_self)
    refine .cons ?_
    cases h with
    | cons h =>
    rcases List.eq_nil_or_concat' l₁ with rfl | ⟨front, l, rfl⟩
    · -- the node goes directly behind `b`
      have hb' : (LinkedList.insertBetween link ([b] : List N).getLast? node l₂.head? b).next =
          some node := by
        simp [LinkedList.insertBetween, hbnode]
      rw [hb']
      refine .cons ?_
      rw [insertBetween_self]
      refine Chain.congr h.drop fun n hn => ?_
      have hnb : b ≠ n := fun heq => hb (heq ▸ hn)
      have hne : n ≠ node := fun heq => hnode (heq ▸ List.mem_cons_of_mem _ hn)
      simp [LinkedList.insertBetween, hne, hnb]
    · have hlast : (b :: (front ++ [l])).getLast? = (front ++ [l]).getLast? := by
        rw [← List.cons_append, List.getLast?_concat, List.getLast?_concat]
      have hlb : l ≠ b := fun heq => hb (by simp [heq])
      have hb' : (LinkedList.insertBetween link (b :: (front ++ [l])).getLast? node l₂.head? b).next =
          (link b).next := by
        simp [LinkedList.insertBetween, hbnode, hlast, hlb]
      have hhead : (link b).next = (front ++ [l] ++ node :: l₂).head? := by
        have := h.head?
        rw [← this]
        cases front <;> rfl
      rw [hb', hhead, hlast]
      exact ih h hnodup fun hmem => hnode (List.mem_cons_of_mem _ hmem)

/-- A node that is put between its new neighbours is on the list between them. -/
theorem IsDoublyLinked.insertBetween (h : IsDoublyLinked head link (l₁ ++ l₂))
    (hnode : node ∉ l₁ ++ l₂) :
    IsDoublyLinked (Head.of (l₁ ++ node :: l₂))
      (LinkedList.insertBetween link l₁.getLast? node l₂.head?) (l₁ ++ node :: l₂) where
  forward := h.forward.insertBetween h.nodup hnode
  backward := by
    have hflip : IsDoublyLinked head.flip (flipAll link) (l₂.reverse ++ l₁.reverse) := by
      simpa using h.flip
    have hmem : node ∉ l₂.reverse ++ l₁.reverse := by
      simpa [and_comm] using hnode
    have hchain := hflip.forward.insertBetween hflip.nodup hmem
    have hreverse : l₂.reverse ++ node :: l₁.reverse = (l₁ ++ node :: l₂).reverse := by simp
    rw [hreverse, List.head?_reverse, List.head?_reverse, List.getLast?_reverse] at hchain
    rw [flipAll_insertBetween]
    exact hchain
  nodup := by
    rw [List.perm_middle.nodup_iff, List.nodup_cons]
    exact ⟨hnode, h.nodup⟩

end LinkedList
