import Mathlib.Data.List.Nodup
import Mathlib.Data.List.Infix
import Mathlib.Logic.Function.Basic

/-!
# Doubly linked lists whose links are in the nodes

A list is a head, which points at its first and its last node; each node has one pair of links, so
that it can be on one list at a time. Nothing but the links says which nodes are on a list.

* `Head`, `Link`, `append`: the list and its operation, on pointers;
* `Chain`, `IsList`: the nodes that a list goes through, from its first to its last;
* `append_first`, `append_last`, `append_next_eq_some`: where the pointers lead after `append`,
  whatever they were before;
* `append_isList`, `append_isList_of_disjoint`: what `append` does to the list, and that it leaves
  alone a list that shares no node with it;
* `removeFirst`, `removeFirst_isList`: the same for the operation at the other end.
-/

namespace LinkedList

variable {N : Type*}

/-- What a list is reached by. -/
structure Head (N : Type*) where
  first : Option N
  last : Option N
  deriving DecidableEq, Repr

/-- The links of a node. -/
structure Link (N : Type*) where
  prev : Option N
  next : Option N
  deriving DecidableEq, Repr

/-- A list without nodes. -/
def Head.empty : Head N := ⟨none, none⟩

/-- Append `node`, store by store. -/
def append [DecidableEq N] (head : Head N) (link : N → Link N) (node : N) :
    Head N × (N → Link N) :=
  let link := Function.update link node ⟨none, none⟩
  match head.first, head.last with
  | some first, some last =>
      let link := Function.update link node { link node with prev := some last }
      let link := Function.update link last { link last with next := some node }
      (⟨some first, some node⟩, link)
  | _, _ => (⟨some node, some node⟩, link)

/-- Remove the first node, store by store, and `none` where the list is empty or a null pointer is
followed. -/
def removeFirst [DecidableEq N] (head : Head N) (link : N → Link N) :
    Option (N × Head N × (N → Link N)) :=
  match head.first with
  | none => none
  | some node =>
      if head.first = head.last then some (node, Head.empty, link)
      else match (link node).next with
        | none => none
        | some next =>
            some (node, { head with first := some next },
              Function.update link next { link next with prev := none })

/-- Going from `first` along `next` one comes through `nodes` to the end. -/
inductive Chain (link : N → Link N) : Option N → List N → Prop
  | nil : Chain link none []
  | cons {node : N} {nodes : List N} :
      Chain link (link node).next nodes → Chain link (some node) (node :: nodes)

/-- `nodes` are the nodes of the list, each of them once. -/
structure IsList (head : Head N) (link : N → Link N) (nodes : List N) : Prop where
  chain : Chain link head.first nodes
  last : head.last = nodes.getLast?
  nodup : nodes.Nodup

variable {head : Head N} {link link' : N → Link N} {first : Option N} {nodes nodes' : List N}
  {node : N}

theorem isList_empty : IsList (Head.empty : Head N) link [] :=
  ⟨.nil, rfl, List.nodup_nil⟩

/-- A chain has one way to go. -/
theorem Chain.unique (h : Chain link first nodes) (h' : Chain link first nodes') :
    nodes = nodes' := by
  induction h generalizing nodes' with
  | nil =>
    cases h'
    rfl
  | cons _ ih =>
    cases h' with
    | cons h' => rw [ih h']

/-- A chain depends on the links of its own nodes only. -/
theorem Chain.congr (h : Chain link first nodes)
    (hlink : ∀ n ∈ nodes, (link' n).next = (link n).next) : Chain link' first nodes := by
  induction h with
  | nil => exact .nil
  | @cons node nodes _ ih =>
    refine .cons ?_
    rw [hlink node List.mem_cons_self]
    exact ih fun n hn => hlink n (List.mem_cons_of_mem _ hn)

/-- The first node of a chain. -/
theorem Chain.head? (h : Chain link first nodes) : nodes.head? = first := by
  cases h <;> rfl

/-- From a node of a chain one comes to a node of the chain. -/
theorem Chain.next_mem (h : Chain link first nodes) {n m : N} (hn : n ∈ nodes)
    (hm : (link n).next = some m) : m ∈ nodes := by
  induction h with
  | nil => cases hn
  | @cons node nodes hchain ih =>
    rcases List.mem_cons.mp hn with rfl | hn
    · rw [hm] at hchain
      exact List.mem_cons_of_mem _ (List.mem_of_mem_head? hchain.head?)
    · exact List.mem_cons_of_mem _ (ih hn)

/-- A chain that is linked to one more node at its end. -/
theorem Chain.concat (h : Chain link first nodes) (hnodup : nodes.Nodup) (hne : nodes ≠ [])
    (hlast : ∀ n ∈ nodes, nodes.getLast? = some n → (link' n).next = some node)
    (hlink : ∀ n ∈ nodes, nodes.getLast? ≠ some n → (link' n).next = (link n).next)
    (hnext : (link' node).next = none) : Chain link' first (nodes ++ [node]) := by
  induction h with
  | nil => exact absurd rfl hne
  | @cons a nodes hchain ih =>
    refine .cons ?_
    rcases List.eq_nil_or_concat' nodes with rfl | ⟨front, l, rfl⟩
    · rw [hlast a List.mem_cons_self rfl]
      refine .cons ?_
      rw [hnext]
      exact .nil
    · have hlasts : (a :: (front ++ [l])).getLast? = (front ++ [l]).getLast? := by
        rw [← List.cons_append, List.getLast?_concat, List.getLast?_concat]
      have hal : a ≠ l := by
        rintro rfl
        exact (List.nodup_cons.mp hnodup).1 (by simp)
      rw [hlink a List.mem_cons_self (by rw [hlasts]; simpa using Ne.symm hal)]
      refine ih (List.nodup_cons.mp hnodup).2 (by simp) (fun n hn hl => ?_) (fun n hn hl => ?_)
      · exact hlast n (List.mem_cons_of_mem _ hn) (hlasts.trans hl)
      · exact hlink n (List.mem_cons_of_mem _ hn) (hlasts ▸ hl)

/-- `IsList` determines the nodes. -/
theorem IsList.unique (h : IsList head link nodes) (h' : IsList head link nodes') :
    nodes = nodes' :=
  h.chain.unique h'.chain

/-- A list depends on the links of its own nodes only. -/
theorem IsList.congr (h : IsList head link nodes)
    (hlink : ∀ n ∈ nodes, (link' n).next = (link n).next) : IsList head link' nodes :=
  ⟨h.chain.congr hlink, h.last, h.nodup⟩

variable [DecidableEq N]

/-- Whatever the links are, `append` leads to the node and to what the list led to before. -/
theorem append_first {n : N} (h : (append head link node).1.first = some n) :
    head.first = some n ∨ n = node := by
  unfold append at h
  split at h
  next first last hfirst hlast =>
    left
    rw [hfirst]
    exact h
  · exact .inr (Option.some.inj h).symm

theorem append_last : (append head link node).1.last = some node := by
  unfold append
  split <;> rfl

theorem append_next_eq_some {n m : N} (h : ((append head link node).2 n).next = some m) :
    (link n).next = some m ∨ head.last = some n ∧ m = node := by
  unfold append at h
  split at h
  next first last hfirst hlast =>
    rcases eq_or_ne n last with rfl | hnl
    · have hm : node = m := by simpa using h
      exact .inr ⟨hlast, hm.symm⟩
    · rcases eq_or_ne n node with rfl | hnn
      · simp [hnl] at h
      · left
        simpa [hnl, hnn] using h
  · rcases eq_or_ne n node with rfl | hnn
    · simp at h
    · left
      simpa [hnn] using h

/-- The links that `append` changes: those of the node, and `next` of what was the last one. -/
theorem append_next {n : N} (hne : head.last ≠ some node) (hn : n ≠ node) :
    ((append head link node).2 n).next =
      if head.first ≠ none ∧ head.last = some n then some node else (link n).next := by
  unfold append
  split
  next first last hfirst hlast =>
    have hln : last ≠ node := fun h => hne (by rw [hlast, h])
    rcases eq_or_ne n last with rfl | hnl
    · simp [hfirst, hlast]
    · simp [hfirst, hlast, hnl, hn, Ne.symm hnl]
  next h =>
    have hnot : ¬(head.first ≠ none ∧ head.last = some n) := by
      rintro ⟨hfirst, hlast⟩
      obtain ⟨first, hf⟩ := Option.ne_none_iff_exists'.mp hfirst
      exact h first n hf hlast
    rw [if_neg hnot]
    simp [hn]

/-- `append` puts a node that is not on the list behind its last one. -/
theorem append_isList (h : IsList head link nodes) (hnode : node ∉ nodes) :
    IsList (append head link node).1 (append head link node).2 (nodes ++ [node]) := by
  have hnodup : (nodes ++ [node]).Nodup :=
    List.nodup_append.mpr ⟨h.nodup, List.nodup_singleton node, by
      intro a ha b hb hab
      rw [List.mem_singleton] at hb
      exact hnode (hb ▸ hab ▸ ha)⟩
  have hhead : nodes.head? = head.first := h.chain.head?
  rcases List.eq_nil_or_concat' nodes with rfl | ⟨front, l, rfl⟩
  · have hfirst : head.first = none := hhead.symm
    -- the list was empty
    have happ : append head link node =
        (⟨some node, some node⟩, Function.update link node ⟨none, none⟩) := by
      simp [append, hfirst]
    rw [happ]
    refine ⟨.cons ?_, rfl, hnodup⟩
    simpa using Chain.nil
  · -- the last node gets a next one
    have hlast : head.last = some l := by simpa using h.last
    obtain ⟨first, hfirst⟩ : ∃ first, head.first = some first := by
      rw [← hhead]
      cases front with
      | nil => exact ⟨l, rfl⟩
      | cons a front => exact ⟨a, rfl⟩
    have hln : l ≠ node := fun heq => hnode (by simp [heq])
    have hne : head.last ≠ some node := by simpa [hlast] using hln
    have hheads : (append head link node).1 = ⟨some first, some node⟩ := by
      simp [append, hfirst, hlast]
    have hnext : ((append head link node).2 node).next = none := by
      simp [append, hfirst, hlast, Ne.symm hln]
    refine ⟨?_, ?_, hnodup⟩
    · rw [hheads, ← hfirst]
      have hnn : ∀ n ∈ front ++ [l], n ≠ node := fun n hn heq => hnode (heq ▸ hn)
      refine h.chain.concat h.nodup (by simp) (fun n hn hl => ?_) (fun n hn hl => ?_) hnext
      · rw [append_next hne (hnn n hn), h.last, if_pos ⟨by simp [hfirst], hl⟩]
      · rw [append_next hne (hnn n hn), h.last, if_neg (fun h => hl h.2)]
    · rw [hheads]
      simp

/-- `append` leaves a list alone that has neither the node nor a node of the list. -/
theorem append_isList_of_disjoint {head' : Head N} (h : IsList head link nodes)
    (h' : IsList head' link nodes') (hdisjoint : ∀ n ∈ nodes', n ∉ nodes) (hnode : node ∉ nodes)
    (hnode' : node ∉ nodes') : IsList head' (append head link node).2 nodes' := by
  refine h'.congr fun n hn => ?_
  have hlast : head.last ≠ some node := by
    rw [h.last]
    exact fun heq => hnode (List.mem_of_getLast? heq)
  have hnn : n ≠ node := fun heq => hnode' (heq ▸ hn)
  rw [append_next hlast hnn, if_neg]
  rintro ⟨-, heq⟩
  rw [h.last] at heq
  exact hdisjoint n hn (List.mem_of_getLast? heq)

/-- `removeFirst` takes the first node off the list. -/
theorem removeFirst_isList (h : IsList head link (node :: nodes)) :
    ∃ head' link', removeFirst head link = some (node, head', link') ∧
      IsList head' link' nodes := by
  obtain ⟨hchain, hlast, hnodup⟩ := h
  obtain ⟨hnode, hnodup⟩ := List.nodup_cons.mp hnodup
  have hfirst : head.first = some node := hchain.head?.symm
  -- the other nodes follow from the link of the first one
  have hrest : Chain link (link node).next nodes := by
    rw [hfirst] at hchain
    cases hchain with
    | cons hrest => exact hrest
  cases nodes with
  | nil =>
    have hsame : head.first = head.last := by
      rw [hfirst, hlast]
      rfl
    refine ⟨Head.empty, link, ?_, isList_empty⟩
    rw [removeFirst, hfirst]
    dsimp only
    rw [if_pos (hfirst ▸ hsame)]
  | cons next nodes =>
    have hnext : (link node).next = some next := hrest.head?.symm
    have hlast' : head.last = (next :: nodes).getLast? := by
      rw [hlast, List.getLast?_cons_cons]
    -- there is more than one node
    have hdiff : some node ≠ head.last := by
      rw [hlast']
      exact fun heq => hnode (List.mem_of_getLast? heq.symm)
    refine ⟨{ head with first := some next },
      Function.update link next { link next with prev := none }, ?_, ?_, hlast', hnodup⟩
    · rw [removeFirst, hfirst]
      dsimp only
      rw [if_neg hdiff, hnext]
    · rw [hnext] at hrest
      -- only a previous link has been stored to
      refine hrest.congr fun n _ => ?_
      by_cases hn : n = next
      · rw [hn, Function.update_self]
      · rw [Function.update_of_ne hn]

end LinkedList
