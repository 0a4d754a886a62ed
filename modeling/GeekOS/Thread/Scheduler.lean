import Mathlib.Data.List.DropRight
import GeekOS.Library.StableInsert
import GeekOS.Thread.State

/-!
# The schedulers

`scheduler.c` selects by `g_scheduler` how a thread enters a queue: at its tail (FCFS and RR), or
by `thread_queue_insert_at_priority` (SJF and PRIORITY). Queues are lists with the head first.

* `splits_scheduler`: every scheduler keeps the old threads in their old order and puts the new
  one somewhere among them;
* `threadQueueInsertAtPriority_eq`: on a sorted queue the four branches of the source are one
  stable insertion.
-/

namespace GeekOS

open StableInsert

variable (priority : ThreadId → ℤ)

/-- The search of `thread_queue_insert_at_priority`, on the threads from the tail to the head:
go on while the new thread has the smaller value and the entry is not the head, then link the
new thread behind the entry. -/
def insertFromTail (node : ThreadId) : List ThreadId → List ThreadId
  | [] => [node]
  | temp :: rest =>
      if priority node < priority temp ∧ rest ≠ [] then temp :: insertFromTail node rest
      else node :: temp :: rest

/-- `thread_queue_insert_at_priority`. Larger numbers indicate lower priority. -/
def threadQueueInsertAtPriority (list : List ThreadId) (node : ThreadId) : List ThreadId :=
  match list.head?, list.getLast? with
  | some head, some tail =>
      if priority tail ≤ priority node then list ++ [node]
      else if priority node < priority head then node :: list
      else (insertFromTail priority node list.reverse).reverse
  | _, _ => [node]

/-- `FCFS_scheduler`. -/
def fcfsScheduler (runqueue : List ThreadId) (thread : ThreadId) : List ThreadId :=
  runqueue ++ [thread]

/-- `SJF_scheduler`. -/
def sjfScheduler (runqueue : List ThreadId) (thread : ThreadId) : List ThreadId :=
  threadQueueInsertAtPriority priority runqueue thread

/-- `PRIORITY_scheduler`. -/
def priorityScheduler (runqueue : List ThreadId) (thread : ThreadId) : List ThreadId :=
  threadQueueInsertAtPriority priority runqueue thread

/-- The table `SCHEDULER`. Its entry for RR is the one for FCFS. -/
def scheduler : SchedulerKind → List ThreadId → ThreadId → List ThreadId
  | .fcfs => fcfsScheduler
  | .sjf => sjfScheduler priority
  | .priority => priorityScheduler priority
  | .rr => fcfsScheduler

/-- The schedulers that keep the run queue ordered by priority. -/
def SchedulerKind.Sorting : SchedulerKind → Prop
  | .sjf | .priority => True
  | .fcfs | .rr => False

instance (g : SchedulerKind) : Decidable g.Sorting := by
  cases g <;> unfold SchedulerKind.Sorting <;> infer_instance

variable {priority}

theorem scheduler_of_sorting {g : SchedulerKind} (h : g.Sorting) :
    scheduler priority g = threadQueueInsertAtPriority priority := by
  cases g <;> first | rfl | exact h.elim

theorem scheduler_of_not_sorting {g : SchedulerKind} (h : ¬g.Sorting) :
    scheduler priority g = fcfsScheduler := by
  cases g <;> first | rfl | exact absurd trivial h

theorem splits_insertFromTail (node : ThreadId) (l : List ThreadId) :
    Splits l node (insertFromTail priority node l) := by
  induction l with
  | nil => exact ⟨[], [], rfl, rfl⟩
  | cons temp rest ih =>
    rw [insertFromTail]
    split
    · obtain ⟨l₁, l₂, hl, hr⟩ := ih
      exact ⟨temp :: l₁, l₂, by rw [hl, List.cons_append], by rw [hr, List.cons_append]⟩
    · exact ⟨[], temp :: rest, rfl, rfl⟩

theorem splits_threadQueueInsertAtPriority (list : List ThreadId) (node : ThreadId) :
    Splits list node (threadQueueInsertAtPriority priority list node) := by
  unfold threadQueueInsertAtPriority
  split
  next head tail _ _ =>
    split
    · exact Splits.append list node
    split
    · exact ⟨[], list, rfl, rfl⟩
    · obtain ⟨l₁, l₂, hl, hr⟩ : Splits list.reverse node
          (insertFromTail priority node list.reverse) := splits_insertFromTail node _
      refine ⟨l₂.reverse, l₁.reverse, ?_, by rw [hr]; simp⟩
      rw [← List.reverse_append, ← hl, List.reverse_reverse]
  next h =>
    cases list with
    | nil => exact ⟨[], [], rfl, rfl⟩
    | cons a l => exact (h a _ rfl (List.getLast?_eq_some_getLast (List.cons_ne_nil a l))).elim

/-- Every scheduler puts the thread somewhere and leaves the others in their order. -/
theorem splits_scheduler (g : SchedulerKind) (list : List ThreadId) (node : ThreadId) :
    Splits list node (scheduler priority g list node) := by
  by_cases h : g.Sorting
  · rw [scheduler_of_sorting h]
    exact splits_threadQueueInsertAtPriority list node
  · rw [scheduler_of_not_sorting h]
    exact Splits.append list node

/-- The search from the tail stops behind the last entry that is not larger, if there is one. -/
theorem insertFromTail_reverse {node : ThreadId} {l : List ThreadId}
    (hl : l.Pairwise (priority · ≤ priority ·)) (hsmall : ∃ y ∈ l, priority y ≤ priority node) :
    (insertFromTail priority node l.reverse).reverse = insertAfter priority node l := by
  induction l using List.reverseRecOn with
  | nil => simp at hsmall
  | append_singleton l last ih =>
    obtain ⟨hl, -, hlast⟩ := List.pairwise_append.mp hl
    have hle : ∀ y ∈ l, priority y ≤ priority last := fun y hy => hlast y hy last (by simp)
    rw [List.reverse_append, List.reverse_singleton, List.singleton_append, insertFromTail]
    by_cases hlt : priority node < priority last
    · -- the last entry is larger, so the entry that is not larger lies before it
      have hsmall' : ∃ y ∈ l, priority y ≤ priority node := by
        obtain ⟨y, hy, hyn⟩ := hsmall
        rcases List.mem_append.mp hy with hy | hy
        · exact ⟨y, hy, hyn⟩
        · obtain rfl := List.mem_singleton.mp hy
          exact absurd hyn (not_le.mpr hlt)
      have hne : l.reverse ≠ [] := by
        obtain ⟨y, hy, -⟩ := hsmall'
        simpa using List.ne_nil_of_mem hy
      rw [if_pos ⟨hlt, hne⟩, List.reverse_cons, ih hl hsmall', insertAfter_append_singleton hlt]
    · have hall : ∀ y ∈ l ++ [last], priority y ≤ priority node := by
        intro y hy
        rcases List.mem_append.mp hy with hy | hy
        · exact (hle y hy).trans (not_lt.mp hlt)
        · obtain rfl := List.mem_singleton.mp hy
          exact not_lt.mp hlt
      rw [if_neg fun h => hlt h.1, insertAfter_eq_append hall]
      simp

/-- On a sorted queue, `thread_queue_insert_at_priority` puts the thread directly behind the last
thread of equal or smaller value. -/
theorem threadQueueInsertAtPriority_eq {list : List ThreadId} (node : ThreadId)
    (hl : list.Pairwise (priority · ≤ priority ·)) :
    threadQueueInsertAtPriority priority list node = insertAfter priority node list := by
  unfold threadQueueInsertAtPriority
  cases list with
  | nil => rfl
  | cons head l =>
    obtain ⟨hhead, -⟩ := List.pairwise_cons.mp hl
    rw [List.head?_cons, List.getLast?_eq_some_getLast (List.cons_ne_nil head l)]
    dsimp only
    split
    next htail =>
      -- the tail has the largest value of the queue
      refine (insertAfter_eq_append fun y hy => le_trans ?_ htail).symm
      rw [← List.dropLast_append_getLast (List.cons_ne_nil head l)] at hy hl
      rcases List.mem_append.mp hy with hy | hy
      · exact (List.pairwise_append.mp hl).2.2 y hy _ (by simp)
      · rw [List.mem_singleton.mp hy]
    split
    next hlt => rw [insertAfter_cons, if_pos hlt]
    next hle => exact insertFromTail_reverse hl ⟨head, List.mem_cons_self, not_lt.mp hle⟩

/-- A mid-list insertion goes behind the last of the equal entries. -/
example : threadQueueInsertAtPriority (fun t => [3, 5, 5, 9, 5].getD t 0) [0, 1, 2, 3] 4 =
    [0, 1, 2, 4, 3] := by decide

end GeekOS
