import GeekOS.Library.DoublyLinked
import GeekOS.Thread.Scheduler

/-!
# A thread queue in memory

A thread queue is a head and a tail pointer, and the two links inside of each thread. Here
`thread_queue_insert_at_priority` is what it does to the pointers, store by store; a null pointer
that it goes through is a fault, and its search goes on for as long as it is given.

* `exists_inserts`: the stores are those of the list `threadQueueInsertAtPriority`, without a
  fault and in at most as many rounds as the queue has threads;
* `insertAtPriority_wellFormed`: the queue that they leave.
-/

namespace GeekOS.ThreadQueue

open LinkedList StableInsert

/-- How the operations on a queue can fail. -/
inductive LinkFault
  /-- A null pointer is followed. -/
  | nullLink
  /-- The search has not come to its end. -/
  | unfinished
  deriving DecidableEq, Repr

/-- Follow a pointer. -/
def deref : Option ThreadId → Except LinkFault ThreadId
  | some t => .ok t
  | none => .error .nullLink

variable (priority : ThreadId → ℤ)

/-- The search from the tail in `thread_queue_insert_at_priority`, for so many rounds. -/
def searchFromTail (link : ThreadId → Link ThreadId) (node : ThreadId) :
    ℕ → ThreadId → Except LinkFault ThreadId
  | 0, _ => .error .unfinished
  | rounds + 1, temp =>
      if priority node < priority temp ∧ (link temp).prev ≠ none then do
        let temp ← deref (link temp).prev
        searchFromTail link node rounds temp
      else .ok temp

/-- `thread_queue_insert_at_priority`. -/
def insertAtPriority (rounds : ℕ) (list : Head ThreadId) (link : ThreadId → Link ThreadId)
    (node : ThreadId) : Except LinkFault (Head ThreadId × (ThreadId → Link ThreadId)) := do
  let link := Function.update link node ⟨none, none⟩
  if list.first = none then
    return (⟨some node, some node⟩, link)
  let tail ← deref list.last
  if priority tail ≤ priority node then
    let link := setPrev link node list.last
    let link := setNext link tail (some node)
    return ({ list with last := some node }, link)
  let head ← deref list.first
  if priority node < priority head then
    let link := setNext link node list.first
    let link := setPrev link head (some node)
    return ({ list with first := some node }, link)
  let temp ← searchFromTail priority link node rounds tail
  let link := setPrev link node (some temp)
  let link := setNext link node (link temp).next
  let next ← deref (link temp).next
  let link := setPrev link next (some node)
  return (list, setNext link temp (some node))

variable {priority} {list : Head ThreadId} {link : ThreadId → Link ThreadId}
  {nodes l₁ l₂ : List ThreadId} {node a : ThreadId}

/-- The search stops at a thread of the queue, and the list behind it is what the search on the list
leaves behind. -/
theorem searchFromTail_eq (priority : ThreadId → ℤ) (node : ThreadId)
    (h : IsDoublyLinked list link (l₁ ++ a :: l₂)) :
    ∃ front temp back, l₁ ++ [a] = front ++ temp :: back ∧
      (∀ rounds, l₁.length < rounds → searchFromTail priority link node rounds a = .ok temp) ∧
      insertFromTail priority node (l₁ ++ [a]).reverse =
        (front ++ temp :: node :: back).reverse ∧
      (back = [] → l₁ = [] ∨ ¬priority node < priority a) := by
  induction l₁ using List.reverseRecOn generalizing a l₂ with
  | nil =>
    refine ⟨[], a, [], rfl, fun rounds hr => ?_, ?_, fun _ => .inl rfl⟩
    · obtain ⟨k, rfl⟩ := Nat.exists_eq_succ_of_ne_zero (Nat.pos_iff_ne_zero.mp hr)
      have hprev : (link a).prev = none := h.prev_eq
      rw [searchFromTail, if_neg fun hc => hc.2 hprev]
    · simp [insertFromTail]
  | append_singleton l₁ b ih =>
    have hprev : (link a).prev = some b := by
      rw [h.prev_eq, List.getLast?_concat]
    by_cases hlt : priority node < priority a
    · -- one step towards the head
      have hlinked : IsDoublyLinked list link (l₁ ++ b :: a :: l₂) := by simpa using h
      obtain ⟨front, temp, back, hsplit, hsearch, hinsert, -⟩ := ih hlinked
      refine ⟨front, temp, back ++ [a], by rw [hsplit]; simp, fun rounds hr => ?_, ?_, by simp⟩
      · obtain ⟨k, rfl⟩ := Nat.exists_eq_succ_of_ne_zero (Nat.ne_zero_of_lt hr)
        rw [List.length_append, List.length_singleton] at hr
        rw [searchFromTail, if_pos ⟨hlt, by simp [hprev]⟩, hprev]
        exact hsearch k (by omega)
      · rw [List.reverse_append, List.reverse_singleton, List.singleton_append, insertFromTail,
          if_pos ⟨hlt, by simp⟩, hinsert]
        simp
    · refine ⟨l₁ ++ [b], a, [], rfl, fun rounds hr => ?_, ?_, fun _ => .inr hlt⟩
      · obtain ⟨k, rfl⟩ := Nat.exists_eq_succ_of_ne_zero (Nat.ne_zero_of_lt hr)
        rw [searchFromTail, if_neg fun hc => hlt hc.1]
      · rw [List.reverse_append, List.reverse_singleton, List.singleton_append, insertFromTail,
          if_neg fun hc => hlt hc.1]
        simp

/-! ## The stores of the branches -/

theorem links_empty : Function.update link node ⟨none, none⟩ = insertBetween link none node none := by
  funext n
  by_cases hn : n = node <;> simp [insertBetween, hn]

theorem links_tail {tail : ThreadId} (ht : tail ≠ node) :
    setNext (setPrev (Function.update link node ⟨none, none⟩) node (some tail)) tail (some node) =
      insertBetween link (some tail) node none := by
  funext n
  by_cases hn : n = node
  · subst hn
    simp [setNext, setPrev, insertBetween, ht.symm]
  · by_cases hnt : n = tail
    · subst hnt
      simp [setNext, setPrev, insertBetween, hn]
    · simp [setNext, setPrev, insertBetween, hn, hnt, Ne.symm hnt]

theorem links_head {head : ThreadId} (hh : head ≠ node) :
    setPrev (setNext (Function.update link node ⟨none, none⟩) node (some head)) head (some node) =
      insertBetween link none node (some head) := by
  funext n
  by_cases hn : n = node
  · subst hn
    simp [setNext, setPrev, insertBetween, hh.symm]
  · by_cases hnh : n = head
    · subst hnh
      simp [setNext, setPrev, insertBetween, hn]
    · simp [setNext, setPrev, insertBetween, hn, hnh, Ne.symm hnh]

theorem links_middle {temp next : ThreadId} (ht : temp ≠ node) (hx : next ≠ node) :
    setNext (setPrev (setNext (setPrev (Function.update link node ⟨none, none⟩) node (some temp))
      node (some next)) next (some node)) temp (some node) =
      insertBetween link (some temp) node (some next) := by
  funext n
  by_cases hn : n = node
  · subst hn
    simp [setNext, setPrev, insertBetween, ht.symm, hx.symm]
  · by_cases hnt : n = temp <;> by_cases hnx : n = next
    · subst hnt hnx
      simp [setNext, setPrev, insertBetween, hn]
    · subst hnt
      simp [setNext, setPrev, insertBetween, hn, hnx, Ne.symm hnx]
    · subst hnx
      simp [setNext, setPrev, insertBetween, hn, hnt, Ne.symm hnt]
    · simp [setNext, setPrev, insertBetween, hn, hnt, hnx, Ne.symm hnt, Ne.symm hnx]

/-! ## The insertion -/

section Insertion

variable {l : List ThreadId} {tail head : ThreadId}

/-- The stores put the new thread between `l₁` and `l₂`, as `threadQueueInsertAtPriority` does. No
pointer on the way is null, and the search ends. -/
structure Inserts (priority : ThreadId → ℤ) (list : Head ThreadId) (link : ThreadId → Link ThreadId)
    (nodes : List ThreadId) (node : ThreadId) (l₁ l₂ : List ThreadId) : Prop where
  split : nodes = l₁ ++ l₂
  onList : threadQueueInsertAtPriority priority nodes node = l₁ ++ node :: l₂
  stores : ∀ rounds, nodes.length ≤ rounds → insertAtPriority priority rounds list link node =
    .ok (Head.of (l₁ ++ node :: l₂), insertBetween link l₁.getLast? node l₂.head?)

theorem inserts_empty (h : IsDoublyLinked list link []) :
    Inserts priority list link [] node [] [] := by
  refine ⟨rfl, rfl, fun rounds _ => ?_⟩
  have hfirst : list.first = none := h.first_eq
  rw [insertAtPriority, if_pos hfirst, links_empty]
  rfl

/-- The branch behind the tail. -/
theorem inserts_tail (h : IsDoublyLinked list link (l ++ [tail]))
    (hhead : (l ++ [tail]).head? = some head) (hne : tail ≠ node)
    (htail : priority tail ≤ priority node) :
    Inserts priority list link (l ++ [tail]) node (l ++ [tail]) [] := by
  have hlast : list.last = some tail := by rw [h.last_eq, List.getLast?_concat]
  have hfirst : list.first = some head := h.first_eq.trans hhead
  refine ⟨by simp, by simp [threadQueueInsertAtPriority, hhead, htail], fun rounds _ => ?_⟩
  have hof : Head.of (l ++ [tail] ++ [node]) = { list with last := some node } := by
    rw [Head.of, List.getLast?_concat, hfirst, List.head?_append, hhead]
    rfl
  rw [insertAtPriority, if_neg (by simp [hfirst]), hlast]
  simp only [deref, Result.ok_bind, if_pos htail, links_tail hne, hof, List.getLast?_concat]
  rfl

/-- The branch in front of the head. -/
theorem inserts_head (h : IsDoublyLinked list link (l ++ [tail]))
    (hhead : (l ++ [tail]).head? = some head) (hne : head ≠ node)
    (htail : ¬priority tail ≤ priority node) (hless : priority node < priority head) :
    Inserts priority list link (l ++ [tail]) node [] (l ++ [tail]) := by
  have hlast : list.last = some tail := by rw [h.last_eq, List.getLast?_concat]
  have hfirst : list.first = some head := h.first_eq.trans hhead
  refine ⟨rfl, by simp [threadQueueInsertAtPriority, hhead, htail, hless], fun rounds _ => ?_⟩
  have hof : Head.of ([] ++ node :: (l ++ [tail])) = ⟨some node, some tail⟩ := by
    rw [Head.of, List.nil_append, ← List.cons_append, List.getLast?_concat]
    rfl
  rw [insertAtPriority, if_neg (by simp [hfirst]), hlast]
  simp only [deref, Result.ok_bind, if_neg htail, hfirst, if_pos hless, links_head hne, hof, hhead]
  rfl

/-- The branch with the search, which stops in front of the tail. -/
theorem exists_inserts_middle (h : IsDoublyLinked list link (l ++ [tail]))
    (hhead : (l ++ [tail]).head? = some head) (hnode : node ∉ l ++ [tail])
    (htail : ¬priority tail ≤ priority node) (hless : ¬priority node < priority head) :
    ∃ l₁ l₂, Inserts priority list link (l ++ [tail]) node l₁ l₂ := by
  have hlast : list.last = some tail := by rw [h.last_eq, List.getLast?_concat]
  have hfirst : list.first = some head := h.first_eq.trans hhead
  -- the search, in the queue with the links of the new thread cleared
  have hclear : IsDoublyLinked list (Function.update link node ⟨none, none⟩) (l ++ [tail]) :=
    h.congr fun n hn => Function.update_of_ne (ne_of_mem_of_not_mem hn hnode) ..
  obtain ⟨front, temp, back, hsplit, hsearch, hinsert, hback⟩ :=
    searchFromTail_eq priority node hclear
  rcases back with _ | ⟨next, back⟩
  · -- the tail has the larger value, and it is not the head
    exfalso
    rcases hback rfl with rfl | hnot
    · obtain rfl : tail = head := by simpa using hhead
      exact htail (not_lt.mp hless)
    · exact htail (not_lt.mp hnot)
  have hlist : l ++ [tail] = (front ++ [temp]) ++ next :: back := by rw [hsplit]; simp
  refine ⟨front ++ [temp], next :: back, hlist, ?_, fun rounds hrounds => ?_⟩
  · rw [threadQueueInsertAtPriority, hhead, List.getLast?_concat]
    simp only [if_neg htail, if_neg hless, hinsert]
    simp
  · have htemp : temp ≠ node := fun heq => hnode (by rw [hlist]; simp [heq])
    have hnextne : next ≠ node := fun heq => hnode (by rw [hlist]; simp [heq])
    have hnext : (link temp).next = some next := by
      have h' : IsDoublyLinked list link (front ++ temp :: next :: back) := by
        rw [← hsplit]
        exact h
      exact h'.next_eq
    -- the ends of the queue stay
    have hof : Head.of (front ++ [temp] ++ node :: next :: back) = list := by
      have hends : list = Head.of (l ++ [tail]) := by
        rw [Head.of, ← h.first_eq, ← h.last_eq]
      rw [hends, hlist]
      simp [Head.of]
    -- `temp->next` is read twice, before and after a store into the new thread
    have hread : (setPrev (Function.update link node ⟨none, none⟩) node (some temp) temp).next =
        some next := by
      simp [setPrev, htemp, hnext]
    have hread' : (setNext (setPrev (Function.update link node ⟨none, none⟩) node (some temp)) node
        (some next) temp).next = some next := by
      simp [setNext, setPrev, htemp, hnext]
    rw [insertAtPriority, if_neg (by simp [hfirst]), hlast]
    simp only [deref, Result.ok_bind, if_neg htail, hfirst, if_neg hless,
      hsearch rounds (by simpa [Nat.succ_le_iff] using hrounds), hread, hread',
      links_middle htemp hnextne, hof]
    rw [List.getLast?_concat]
    rfl

/-- Which threads the new one is put between. -/
theorem exists_inserts (priority : ThreadId → ℤ) (h : IsDoublyLinked list link nodes)
    (hnode : node ∉ nodes) : ∃ l₁ l₂, Inserts priority list link nodes node l₁ l₂ := by
  rcases List.eq_nil_or_concat' nodes with rfl | ⟨l, tail, rfl⟩
  · exact ⟨[], [], inserts_empty h⟩
  obtain ⟨head, hhead⟩ : ∃ head, (l ++ [tail]).head? = some head :=
    Option.isSome_iff_exists.mp (by simp)
  have hmem : head ∈ l ++ [tail] := List.mem_of_mem_head? hhead
  by_cases htail : priority tail ≤ priority node
  · exact ⟨_, _, inserts_tail h hhead (fun heq => hnode (by simp [heq])) htail⟩
  by_cases hless : priority node < priority head
  · exact ⟨_, _, inserts_head h hhead (fun heq => hnode (heq ▸ hmem)) htail hless⟩
  · exact exists_inserts_middle h hhead hnode htail hless

end Insertion

/-- In a queue that is sorted, the threads in front of the new one are those that are not larger. -/
theorem sorted_threadQueueInsertAtPriority (hsorted : nodes.Pairwise (priority · ≤ priority ·))
    (hnode : node ∉ nodes)
    (hinsert : threadQueueInsertAtPriority priority nodes node = l₁ ++ node :: l₂) :
    (l₁ ++ node :: l₂).Pairwise (priority · ≤ priority ·) ∧
      (∀ a ∈ l₁, priority a ≤ priority node) ∧ ∀ a ∈ l₂, priority node < priority a := by
  -- the new thread stands in front of strictly larger ones only
  let R (a b : ThreadId) : Prop := priority a ≤ priority b ∧ (a = node → priority a < priority b)
  have hR : (insertAfter priority node nodes).Pairwise R := by
    refine pairwise_insertAfter (fun _ _ h => h.1) ?_ (fun y hy hle => ?_) fun y _ hlt => ?_
    · refine hsorted.imp_of_mem fun ha _ hle => ⟨hle, fun heq => absurd (heq ▸ ha) hnode⟩
    · exact ⟨hle, fun heq => absurd (heq ▸ hy) hnode⟩
    · exact ⟨hlt.le, fun _ => hlt⟩
  rw [← threadQueueInsertAtPriority_eq node hsorted, hinsert] at hR
  obtain ⟨-, hbehind, hbefore⟩ := List.pairwise_append.mp hR
  exact ⟨hR.imp And.left, fun a ha => (hbefore a ha node List.mem_cons_self).1,
    fun a ha => ((List.pairwise_cons.mp hbehind).1 a ha).2 rfl⟩

/-- On every well-formed queue and for every thread that is not on it, the insertion follows no null
pointer and comes to its end, and leaves a well-formed queue of the old threads in their order and
the new one. If the queue was sorted it still is, and the new thread is directly behind the last one
of equal or smaller value. -/
theorem insertAtPriority_wellFormed (h : IsDoublyLinked list link nodes) (hnode : node ∉ nodes) :
    ∃ list' link' l₁ l₂,
      (∀ rounds, nodes.length ≤ rounds →
        insertAtPriority priority rounds list link node = .ok (list', link')) ∧
      nodes = l₁ ++ l₂ ∧ IsDoublyLinked list' link' (l₁ ++ node :: l₂) ∧
      threadQueueInsertAtPriority priority nodes node = l₁ ++ node :: l₂ ∧
      (∀ n, n ≠ node → l₁.getLast? ≠ some n → l₂.head? ≠ some n → link' n = link n) ∧
      (nodes.Pairwise (priority · ≤ priority ·) →
        (l₁ ++ node :: l₂).Pairwise (priority · ≤ priority ·) ∧
        (∀ a ∈ l₁, priority a ≤ priority node) ∧ ∀ a ∈ l₂, priority node < priority a) := by
  obtain ⟨l₁, l₂, rfl, hinsert, hok⟩ := exists_inserts priority h hnode
  exact ⟨_, _, l₁, l₂, hok, rfl, h.insertBetween hnode, hinsert,
    fun n hn hbefore hafter => insertBetween_of_ne hn hbefore hafter,
    fun hsorted => sorted_threadQueueInsertAtPriority hsorted hnode hinsert⟩

/-- The links of a queue of the threads 1, 2 and 3. -/
def threeLinks : ThreadId → Link ThreadId
  | 1 => ⟨none, some 2⟩
  | 2 => ⟨some 1, some 3⟩
  | 3 => ⟨some 2, none⟩
  | _ => ⟨none, none⟩

/-- The values of these threads and of thread 4. -/
def fourPriorities : ThreadId → ℤ
  | 1 => 1
  | 2 => 5
  | 3 => 9
  | _ => 5

theorem threeLinks_isDoublyLinked : IsDoublyLinked ⟨some 1, some 3⟩ threeLinks [1, 2, 3] where
  forward := .cons (.cons (.cons .nil))
  backward := .cons (.cons (.cons .nil))
  nodup := by decide

/-- Thread 4 goes behind its equal, in three rounds at most. -/
theorem insertAtPriority_wellFormed_middle :
    ∃ list' link', insertAtPriority fourPriorities 3 ⟨some 1, some 3⟩ threeLinks 4 =
      .ok (list', link') ∧ IsDoublyLinked list' link' [1, 2, 4, 3] := by
  obtain ⟨list', link', l₁, l₂, hok, -, hlinked, hinsert, -⟩ := @insertAtPriority_wellFormed
    fourPriorities _ _ _ 4 threeLinks_isDoublyLinked (by decide)
  rw [← hinsert] at hlinked
  exact ⟨list', link', hok 3 (by decide), hlinked⟩

end GeekOS.ThreadQueue
