import Mathlib.Data.List.Basic
import GeekOS.Thread.ProcessModel

/-!
# When threads joined their queues

The history fields `clock` and `stamp` of the state count the insertions into queues, so `stamp t`
tells when `t` joined the queue it is in. A wait queue is first in, first out: its head is the
thread that has waited longest, whatever scheduler is selected.
-/

namespace GeekOS

open StableInsert

namespace Sched

variable (s : Sched)

/-- Every member of a queue has joined it in the past. -/
def Stamped : Prop := ∀ q t, t ∈ s.queue q → s.stamp t < s.clock

/-- The threads in a wait queue stand in the order in which they went to sleep. -/
def Fifo : Prop := ∀ q, (s.queue (.wait q)).Pairwise fun a b => s.stamp a < s.stamp b

end Sched

section Stamped

variable {s : Sched} {t : ThreadId}

theorem stamped_setQueue {q : QueueId} {rest : List ThreadId} (h : s.Stamped)
    (hq : s.queue q = t :: rest) : (s.setQueue q rest).Stamped :=
  fun q' u hu => h q' u (mem_of_mem_setQueue hq hu)

/-- A thread gets a stamp when it joins a queue, and the others keep theirs. -/
theorem stamped_enqueue {q : QueueId} {r : List ThreadId} (h : s.Stamped)
    (hr : Splits (s.queue q) t r) : (s.enqueue q r t).Stamped := by
  intro q' u hu
  change Function.update s.stamp t s.clock u < s.clock + 1
  by_cases hut : u = t
  · rw [hut, Function.update_self]
    exact Nat.lt_succ_self _
  · rw [Function.update_of_ne hut]
    refine (h q' u ?_).trans (Nat.lt_succ_self _)
    exact ((mem_enqueue hr).mp hu).resolve_right fun he => hut he.1

/-- Every move keeps the stamps of members in the past. -/
theorem stamped_move {l : Option Label} {c c' : Config} (h : c.2.Stamped) (hm : Move l c c') :
    c'.2.Stamped := by
  cases hm with
  | dispatch hq hth => exact stamped_setQueue h hq
  | ready hth hrun => exact stamped_enqueue h (splits_scheduler _ _ _)
  | block q hth hrun => exact stamped_enqueue h (Splits.append _ _)
  | wake hq hth => exact stamped_enqueue (stamped_setQueue h hq) (splits_scheduler _ _ _)
  | merge hq hth => exact stamped_enqueue (stamped_setQueue h hq) (splits_scheduler _ _ _)
  | spawn => exact stamped_enqueue h (splits_scheduler _ _ _)
  | spawnNew => exact stamped_enqueue h (splits_scheduler _ _ _)
  | touch | globals | detach | exit | prioritize | free | select | preemption | reschedule =>
    exact h

end Stamped

section Fifo

variable {s : Sched} {t : ThreadId}

theorem fifo_setQueue {q : QueueId} {rest : List ThreadId} (h : s.Fifo)
    (hq : s.queue q = t :: rest) : (s.setQueue q rest).Fifo := by
  intro q'
  by_cases hqq : .wait q' = q
  · subst hqq
    have hsorted := h q'
    rw [hq, List.pairwise_cons] at hsorted
    rw [Sched.setQueue_queue, Function.update_self]
    exact hsorted.2
  · rw [Sched.setQueue_queue, Function.update_of_ne hqq]
    exact h q'

/-- A thread that is in no wait queue joins a queue that is none. -/
theorem fifo_enqueue {q : QueueId} {r : List ThreadId} (h : s.Fifo) (hq : ∀ q', .wait q' ≠ q)
    (hout : ∀ q', t ∉ s.queue (.wait q')) : (s.enqueue q r t).Fifo := by
  intro q'
  rw [Sched.enqueue_queue, Function.update_of_ne (hq q')]
  refine (h q').imp_of_mem fun {a b} ha hb hab => ?_
  have hat : a ≠ t := fun he => hout q' (he ▸ ha)
  have hbt : b ≠ t := fun he => hout q' (he ▸ hb)
  change Function.update s.stamp t s.clock a < Function.update s.stamp t s.clock b
  rwa [Function.update_of_ne hat, Function.update_of_ne hbt]

/-- A thread that is in no queue goes to sleep: it has the latest stamp. -/
theorem fifo_append {q : WaitQueue} (h : s.Fifo) (hs : s.Stamped)
    (hout : ∀ q', t ∉ s.queue q') : (threadQueueAppend (.wait q) t s).Fifo := by
  have hold : ∀ q' u, u ∈ s.queue q' → Function.update s.stamp t s.clock u = s.stamp u := by
    intro q' u hu
    have hne : u ≠ t := fun he => hout q' (he ▸ hu)
    exact Function.update_of_ne hne ..
  have hkeep : ∀ q', (s.queue (.wait q')).Pairwise fun a b =>
      Function.update s.stamp t s.clock a < Function.update s.stamp t s.clock b := by
    intro q'
    refine (h q').imp_of_mem fun {a b} ha hb hab => ?_
    rwa [hold _ a ha, hold _ b hb]
  intro q'
  by_cases hqq : q' = q
  · subst hqq
    rw [threadQueueAppend, Sched.enqueue_queue, Function.update_self, List.pairwise_append]
    refine ⟨hkeep q', List.pairwise_singleton _ _, fun a ha b hb => ?_⟩
    obtain rfl := List.mem_singleton.mp hb
    change Function.update s.stamp b s.clock a < Function.update s.stamp b s.clock b
    rw [hold _ a ha, Function.update_self]
    exact hs _ a ha
  · have hne : QueueId.wait q' ≠ .wait q := by simpa using hqq
    rw [threadQueueAppend, Sched.enqueue_queue, Function.update_of_ne hne]
    exact hkeep q'

/-- Every move keeps the wait queues first in, first out. -/
theorem fifo_move {l : Option Label} {c c' : Config} (h : c.2.Fifo) (hs : c.2.Stamped)
    (hp : Placed c.1.toList c.2) (hm : Move l c c') : c'.2.Fifo := by
  cases hm with
  | dispatch hq hth => exact fifo_setQueue h hq
  | ready hth hrun => exact fifo_enqueue h (by simp) fun q' => hp.outside _ (by simp) _
  | block q hth hrun => exact fifo_append h hs fun q' => hp.outside _ (by simp) _
  | wake hq hth =>
    exact fifo_enqueue (fifo_setQueue h hq) (by simp)
      fun q' => (hp.take hq).outside _ List.mem_cons_self (.wait q')
  | merge hq hth =>
    exact fifo_enqueue (fifo_setQueue h hq) (by simp)
      fun q' => (hp.take hq).outside _ List.mem_cons_self (.wait q')
  | @spawn x s th hstate =>
    have hne : th.state ≠ .exited := by simp [hstate]
    exact fifo_enqueue h (by simp) fun q' => (hp.alloc hne).outside _ List.mem_cons_self _
  | @spawnNew x s th hstate =>
    have hne : th.state ≠ .exited := by simp [hstate]
    exact fifo_enqueue h (by simp) fun q' => (hp.alloc hne).outside _ List.mem_cons_self _
  | touch | globals | detach | exit | prioritize | free | select | preemption | reschedule =>
    exact h

end Fifo

end GeekOS
