import GeekOS.Workqueue.State

/-!
# Work in order

The items go through the kernel in the order in which they have come into the list: first the
memory of a thread that schedules work, then the list, then the hands of the workqueue thread.

* `Inv`: whose an item is. The pointers lead through the items of the list, and the histories are
  cut at the item that the workqueue thread holds;
* `Inv.exec`: what an event does to it, and which assertions can fail there;
* `inOrder_of_run`: what this says about the histories of a run.
-/

namespace GeekOS.Workqueue

open LinkedList TransitionSystem

/-- The links of the items. -/
def links (item : ItemId → Option WorkqueueItem) : ItemId → Link ItemId :=
  fun i => ⟨none, (item i).bind WorkqueueItem.next⟩

/-- The work of the entry is in the memory of its item. -/
def Entry.StoredIn (e : Entry) (item : ItemId → Option WorkqueueItem) : Prop :=
  ∃ next, item e.item = some ⟨e.callback, e.data, next⟩

/-- The item that a thread has got for its work. -/
def Scheduling.item : Scheduling → Option ItemId
  | .fill i _ _ | .insert i _ _ => some i
  | _ => none

/-- The entry whose callback has been called and is not freed yet. -/
def WorkerPc.begun : WorkerPc → List Entry
  | .running e | .free e => [e]
  | _ => []

/-- The entry whose callback has returned and that is not freed yet. -/
def WorkerPc.ended : WorkerPc → List Entry
  | .free e => [e]
  | _ => []

/-- What the workqueue thread has taken out of the list. -/
inductive Holds : WorkerPc → List Entry → Prop
  | loop : Holds .loop []
  | invoke (e : Entry) : Holds (.invoke e.item) [e]
  | running (e : Entry) : Holds (.running e) [e]
  | free (e : Entry) : Holds (.free e) [e]

variable {T : Type}

/-- The items of the threads that schedule work: each is allocated and belongs to one thread, and
it is filled before it comes into the list. -/
structure OwnItems (item : ItemId → Option WorkqueueItem) (scheduling : T → Scheduling) : Prop where
  allocated : ∀ t i, (scheduling t).item = some i → item i ≠ none
  once : ∀ t u i, (scheduling t).item = some i → (scheduling u).item = some i → t = u
  filled : ∀ t i callback data, scheduling t = .insert i callback data →
    item i = some ⟨callback, data, none⟩

/-- The workqueue thread holds the entries `held`, and the list consists of `queue`. -/
structure Inv (s : State T) (held queue : List Entry) : Prop where
  holds : Holds s.worker held
  list : IsList ⟨s.sWorkqueueHead, s.sWorkqueueTail⟩ (links s.item) (queue.map Entry.item)
  stored : ∀ e ∈ held ++ queue, e.StoredIn s.item
  nodup : ((held ++ queue).map Entry.item).Nodup
  inserted : s.inserted = s.freed ++ held ++ queue
  invoked : s.invoked = s.freed ++ s.worker.begun
  returned : s.returned = s.freed ++ s.worker.ended
  own : OwnItems s.item s.scheduling
  apart : ∀ t i, (s.scheduling t).item = some i → i ∉ (held ++ queue).map Entry.item

/-- Nothing but the assertions of `thread_wakeup_one` and `mem_free` can fail, and where nothing
fails the invariant holds again. -/
def Safe (x : Except Fault (State T)) : Prop :=
  match x with
  | .ok s => ∃ held queue, Inv s held queue
  | .error f => f = .assertion .waitqueueNotEmpty ∨ f = .assertion .inHeap

variable {s s' : State T} {held queue : List Entry} {t : T}
  {item : ItemId → Option WorkqueueItem} {scheduling : T → Scheduling} {i : ItemId}

/-! ## The list -/

/-- What the threads own depends on the memory of their items only. -/
theorem OwnItems.congr {item' : ItemId → Option WorkqueueItem} (h : OwnItems item scheduling)
    (hitem : ∀ u j, (scheduling u).item = some j → item' j = item j) :
    OwnItems item' scheduling := by
  refine ⟨fun u j hj => ?_, h.once, fun u j callback data hj => ?_⟩
  · rw [hitem u j hj]
    exact h.allocated u j hj
  · rw [hitem u j (by rw [hj]; rfl)]
    exact h.filled u j callback data hj

theorem Entry.StoredIn.update {e : Entry} {record : Option WorkqueueItem} (h : e.StoredIn item)
    (hne : e.item ≠ i) : e.StoredIn (Function.update item i record) := by
  obtain ⟨next, hnext⟩ := h
  exact ⟨next, by rw [Function.update_of_ne hne, hnext]⟩

theorem isList_update {head : Head ItemId} {nodes : List ItemId} {record : Option WorkqueueItem}
    (h : IsList head (links item) nodes) (hi : i ∉ nodes) :
    IsList head (links (Function.update item i record)) nodes := by
  refine h.congr fun n hn => ?_
  rw [links, links, Function.update_of_ne (ne_of_mem_of_not_mem hn hi)]

/-- `link` puts an item behind the last one. The assertion holds, and the other items keep their
work. -/
theorem link_eq (hlist : IsList ⟨s.sWorkqueueHead, s.sWorkqueueTail⟩ (links s.item)
      (queue.map Entry.item)) (hstored : ∀ e ∈ queue, e.StoredIn s.item)
    (hi : i ∉ queue.map Entry.item) (hnext : (links s.item i).next = none) :
    ∃ item' head', s.link i = .ok { s with
        item := item', sWorkqueueHead := head', sWorkqueueTail := some i } ∧
      IsList ⟨head', some i⟩ (links item') (queue.map Entry.item ++ [i]) ∧
      (∀ e : Entry, e.StoredIn s.item → e.StoredIn item') ∧
      ∀ j ∉ queue.map Entry.item, item' j = s.item j := by
  rcases List.eq_nil_or_concat' queue with rfl | ⟨front, l, rfl⟩
  · have hhead : s.sWorkqueueHead = none := hlist.chain.head?.symm
    refine ⟨s.item, some i, if_pos hhead, ⟨.cons ?_, rfl, List.nodup_singleton i⟩,
      fun _ he => he, fun _ _ => rfl⟩
    rw [hnext]
    exact .nil
  · -- the list is not empty, so its tail is not null: this is the assertion of `link`
    have hlast : s.sWorkqueueTail = some l.item := by
      refine hlist.last.trans ?_
      rw [List.map_append]
      exact List.getLast?_concat ..
    have hhead : s.sWorkqueueHead ≠ none := by
      have heq : ((front ++ [l]).map Entry.item).head? = s.sWorkqueueHead := hlist.chain.head?
      rw [← heq]
      simp
    obtain ⟨next, hrecord⟩ := hstored l (by simp)
    have hlmem : l.item ∈ (front ++ [l]).map Entry.item := by simp
    have hli : i ≠ l.item := fun heq => hi (heq ▸ hlmem)
    refine ⟨Function.update s.item l.item (some ⟨l.callback, l.data, some i⟩), s.sWorkqueueHead,
      ?_, ⟨?_, (List.getLast?_concat ..).symm, ?_⟩, fun e he => ?_, fun j hj => ?_⟩
    · rw [State.link, if_neg hhead, hlast]
      simp only [State.deref, hrecord, Result.ok_bind]
      rfl
    · -- only the link of the last item is stored into, and `i` has none yet
      refine hlist.chain.concat hlist.nodup (by simp) (fun n _ hn => ?_) (fun n _ hn => ?_) ?_
      · obtain rfl := Option.some.inj (hlast.symm.trans (hlist.last.trans hn))
        rw [links, Function.update_self]
        rfl
      · have hnl : n ≠ l.item := by
          rintro rfl
          exact hn (hlist.last.symm.trans hlast)
        rw [links, links, Function.update_of_ne hnl]
      · rw [links, Function.update_of_ne hli]
        exact hnext
    · exact (List.perm_append_singleton i _).nodup_iff.mpr (List.nodup_cons.mpr ⟨hi, hlist.nodup⟩)
    · -- the store changes the link of an item, and leaves its work alone
      obtain ⟨next', he⟩ := he
      by_cases hel : e.item = l.item
      · rw [hel, hrecord] at he
        obtain ⟨hcallback, hdata, -⟩ := WorkqueueItem.mk.inj (Option.some.inj he)
        exact ⟨some i, by rw [hel, Function.update_self, hcallback, hdata]⟩
      · exact ⟨next', by rw [Function.update_of_ne hel, he]⟩
    · have hjl : j ≠ l.item := fun heq => hj (heq ▸ hlmem)
      rw [Function.update_of_ne hjl]

theorem State.deref_eq_ok {record : WorkqueueItem} :
    s.deref i = .ok record ↔ s.item i = some record := by
  unfold State.deref
  split <;> simp_all

/-- Nothing but the list changes: no item is allocated or freed. -/
theorem State.link_eq_ok (h : s.link i = .ok s') :
    ∃ item' head' tail', (∀ j, item' j = none ↔ s.item j = none) ∧
      s' = { s with item := item', sWorkqueueHead := head', sWorkqueueTail := tail' } := by
  unfold State.link at h
  split at h
  · exact ⟨_, _, _, fun _ => Iff.rfl, (Except.ok.inj h).symm⟩
  · cases htail : s.sWorkqueueTail with
    | none => simp [htail] at h
    | some l =>
      rw [htail] at h
      obtain ⟨record, hrecord, h⟩ := Result.bind_eq_ok.mp h
      refine ⟨_, _, _, fun j => ?_, (Result.pure_eq_ok.mp h).symm⟩
      rcases eq_or_ne j l with rfl | hne
      · -- the last item was there before
        simp [State.deref_eq_ok.mp hrecord]
      · rw [Function.update_of_ne hne]

theorem State.threadWakeupOne_eq_ok (h : s.threadWakeupOne = .ok s') :
    s' = { s with sWaitqueue := s.sWaitqueue.tail } := by
  obtain ⟨_, -, h⟩ := Result.bind_eq_ok.mp h
  exact (Result.pure_eq_ok.mp h).symm

/-- The workqueue thread waits if the list is empty. -/
theorem State.nextItem_of_empty {w : T} (hhead : s.sWorkqueueHead = none) :
    s.nextItem w = .ok { s with sWaitqueue := s.sWaitqueue ++ [w] } := by
  unfold State.nextItem
  split
  · rfl
  next heq =>
    rw [hhead] at heq
    cases heq

/-- The first item of the list, and what the list is without it. -/
theorem nextItem_eq {w : T} {e : Entry} (hlist : IsList ⟨s.sWorkqueueHead, s.sWorkqueueTail⟩
      (links s.item) ((e :: queue).map Entry.item)) (hstored : e.StoredIn s.item) :
    ∃ head' tail', s.nextItem w = .ok { s with
        sWorkqueueHead := head', sWorkqueueTail := tail', worker := .invoke e.item } ∧
      IsList ⟨head', tail'⟩ (links s.item) (queue.map Entry.item) := by
  obtain ⟨next, hrecord⟩ := hstored
  have hhead : s.sWorkqueueHead = some e.item := hlist.chain.head?.symm
  refine ⟨next, if next = none then none else s.sWorkqueueTail, ?_, ?_⟩
  · simp only [State.nextItem, hhead, State.deref, hrecord, Result.ok_bind]
    rfl
  · have hchain : Chain (links s.item) next (queue.map Entry.item) := by
      have h := hlist.chain
      rw [hhead] at h
      cases h with
      | cons h =>
        rw [links, hrecord] at h
        exact h
    refine ⟨hchain, ?_, (List.nodup_cons.mp hlist.nodup).2⟩
    cases queue with
    | nil =>
      -- the last item has been taken out, and the tail is cleared with the head
      have hnext : next = none := hchain.head?.symm
      exact if_pos hnext
    | cons e' rest =>
      have hnext : next = some e'.item := hchain.head?.symm
      have hne : next ≠ none := by
        rw [hnext]
        exact Option.some_ne_none _
      exact (if_neg hne).trans (hlist.last.trans List.getLast?_cons_cons)

/-! ## The workqueue thread -/

/-- The workqueue thread waits, or takes the first item. -/
theorem Inv.nextItem {w : T} (h : Inv s held queue) (hpc : s.worker = .loop) :
    Safe (s.nextItem w) := by
  have hholds := h.holds
  rw [hpc] at hholds
  cases hholds
  cases queue with
  | nil =>
    have hhead : s.sWorkqueueHead = none := h.list.chain.head?.symm
    rw [State.nextItem_of_empty hhead]
    exact ⟨[], [], h.holds, h.list, h.stored, h.nodup, h.inserted, h.invoked, h.returned, h.own,
      h.apart⟩
  | cons e rest =>
    obtain ⟨head', tail', hok, hlist⟩ := nextItem_eq (w := w) h.list (h.stored e (by simp))
    have hbegun := h.invoked
    have hended := h.returned
    rw [hpc] at hbegun hended
    rw [hok]
    exact ⟨[e], rest, .invoke e, hlist, h.stored, h.nodup, by simpa using h.inserted, hbegun,
      hended, h.own, h.apart⟩

/-- The callback is called with what the item was scheduled for. -/
theorem Inv.invoke (h : Inv s held queue) (hpc : s.worker = .invoke i) : Safe (s.invoke i) := by
  have hholds := h.holds
  rw [hpc] at hholds
  cases hholds with
  | invoke e =>
    obtain ⟨next, hrecord⟩ := h.stored e (by simp)
    have hbegun := h.invoked
    have hended := h.returned
    rw [hpc] at hbegun hended
    simp only [State.invoke, State.deref, hrecord, Result.ok_bind]
    refine ⟨[e], queue, .running e, h.list, h.stored, h.nodup, h.inserted, ?_, hended, h.own,
      h.apart⟩
    simp only [hbegun, WorkerPc.begun, List.append_nil]

theorem Inv.callbackReturns (h : Inv s held queue) {e : Entry} (hpc : s.worker = .running e) :
    ∃ held queue, Inv { s with worker := .free e, returned := s.returned ++ [e] } held queue := by
  have hholds := h.holds
  rw [hpc] at hholds
  cases hholds
  have hbegun := h.invoked
  have hended := h.returned
  rw [hpc] at hbegun hended
  refine ⟨[e], queue, .free e, h.list, h.stored, h.nodup, h.inserted, hbegun, ?_, h.own, h.apart⟩
  simp only [hended, WorkerPc.ended, List.append_nil]

/-- The item that is freed is allocated, and nobody else has it. -/
theorem Inv.memFree (h : Inv s held queue) {e : Entry} (hpc : s.worker = .free e) :
    Safe (s.memFree e) := by
  have hholds := h.holds
  rw [hpc] at hholds
  cases hholds
  obtain ⟨next, hrecord⟩ := h.stored e (by simp)
  -- the worker is behind the callback, so the item has left the list
  obtain ⟨hqueue, hnodup⟩ := List.nodup_cons.mp h.nodup
  have hbegun := h.invoked
  have hended := h.returned
  rw [hpc] at hbegun hended
  unfold State.memFree State.kassert
  by_cases hheap : s.gHeapstart ≤ e.item ∧ e.item < s.gHeapend
  · simp only [Result.require, if_pos hheap, Result.ok_bind, State.deref, hrecord]
    refine ⟨[], queue, .loop, isList_update h.list hqueue, fun e' he' => ?_, hnodup, ?_, ?_,
      ?_, h.own.congr fun u j hj => ?_, fun u j hj hmem => ?_⟩
    · exact (h.stored e' (List.mem_append_right _ he')).update
        fun heq => hqueue (heq ▸ List.mem_map_of_mem he')
    · simpa using h.inserted
    · simpa [WorkerPc.begun] using hbegun
    · simpa [WorkerPc.ended] using hended
    · have hje : j ≠ e.item := fun heq => h.apart u j hj (by simp [heq])
      exact Function.update_of_ne hje ..
    · exact h.apart u j hj (by
        rw [List.map_append]
        exact List.mem_append_right _ hmem)
  · simp only [Result.require, if_neg hheap]
    exact .inr rfl

/-- `thread_wakeup_one` does not concern the items. -/
theorem Inv.threadWakeupOne (h : Inv s held queue) : Safe s.threadWakeupOne := by
  unfold State.threadWakeupOne State.kassert
  by_cases hempty : s.sWaitqueue = []
  · simp only [Result.require, hempty, ne_eq, not_true_eq_false, if_false]
    exact .inl rfl
  · simp only [Result.require, if_pos hempty]
    exact ⟨held, queue, h.holds, h.list, h.stored, h.nodup, h.inserted, h.invoked, h.returned,
      h.own, h.apart⟩

/-- Before the first call nothing is on its way. -/
theorem State.Initial.inv (h : s.Initial) : Inv s [] [] where
  holds := by
    rw [h.worker]
    exact .loop
  list := by
    rw [h.head, h.tail]
    exact isList_empty
  stored e he := absurd he List.not_mem_nil
  nodup := List.nodup_nil
  inserted := by rw [h.inserted, h.freed]; rfl
  invoked := by rw [h.invoked, h.freed, h.worker]; rfl
  returned := by rw [h.returned, h.freed, h.worker]; rfl
  own := by
    -- no thread is in `workqueue_schedule_work`
    have hout : ∀ u j, (s.scheduling u).item ≠ some j := by
      intro u j hj
      rw [h.scheduling] at hj
      cases hj
    refine ⟨fun u j hj => absurd hj (hout u j), fun u _ j hj => absurd hj (hout u j),
      fun u j callback data hj => ?_⟩
    rw [h.scheduling] at hj
    cases hj
  apart u j _ hmem := absurd hmem List.not_mem_nil

/-! ## The histories -/

/-- Callbacks are called in the order in which their items have come into the list, each with what
its item was scheduled for, and an item is freed when its callback has returned. The tail is the
last item of the list. -/
structure State.InOrder (s : State T) : Prop where
  invoked : s.invoked <+: s.inserted
  returned : ∃ running, s.invoked = s.returned ++ running ∧ running.length ≤ 1
  freed : ∃ ended, s.returned = s.freed ++ ended ∧ ended.length ≤ 1
  /-- Behind the last item, every one has been called and freed. -/
  idle : s.worker = .loop → s.sWorkqueueHead = none → s.freed = s.inserted
  list : ∃ nodes, IsList ⟨s.sWorkqueueHead, s.sWorkqueueTail⟩ (links s.item) nodes

/-- What a step of the workqueue thread does, wherever the thread is in its loop: it goes to sleep,
it takes the first item out of the list, it calls the callback of this item, or it frees the
item. -/
structure State.Advances (w : T) (s s' : State T) : Prop where
  sleep : s.worker = .loop → s.sWorkqueueHead = none → s'.worker = .loop ∧ w ∈ s'.sWaitqueue
  take : ∀ i, s.worker = .loop → s.sWorkqueueHead = some i → s'.worker = .invoke i
  /-- The item is the next one in the order in which the items have come into the list. -/
  call : ∀ i, s.worker = .invoke i → ∃ e : Entry, e.item = i ∧
    s.inserted[s.invoked.length]? = some e ∧ s'.worker = .running e ∧ s'.invoked = s.invoked ++ [e]
  free : ∀ e, s.worker = .free e →
    s'.worker = .loop ∧ s'.freed = s.freed ++ [e] ∧ s'.item e.item = none

theorem Holds.begun {pc : WorkerPc} (h : Holds pc held) : pc.begun <+: held := by
  cases h with
  | loop | invoke => exact List.nil_prefix
  | running e | free e => exact List.prefix_rfl

theorem WorkerPc.length_ended_le (pc : WorkerPc) : pc.ended.length ≤ 1 := by
  cases pc with
  | loop | invoke | running => exact Nat.zero_le 1
  | free e => exact le_rfl

theorem WorkerPc.begun_eq (pc : WorkerPc) :
    ∃ running, pc.begun = pc.ended ++ running ∧ running.length ≤ 1 := by
  cases pc with
  | loop | invoke => exact ⟨[], rfl, Nat.zero_le 1⟩
  | running e => exact ⟨[e], rfl, le_rfl⟩
  | free e => exact ⟨[], rfl, Nat.zero_le 1⟩

theorem Inv.inOrder (h : Inv s held queue) : s.InOrder := by
  refine ⟨?_, ?_, ⟨_, h.returned, s.worker.length_ended_le⟩, fun hpc hhead => ?_, _, h.list⟩
  · rw [h.invoked, h.inserted]
    exact ((List.prefix_append_right_inj s.freed).mpr h.holds.begun).trans (List.prefix_append ..)
  · obtain ⟨running, hrunning, hlength⟩ := s.worker.begun_eq
    exact ⟨running, by rw [h.invoked, h.returned, hrunning, List.append_assoc], hlength⟩
  · have hholds := h.holds
    rw [hpc] at hholds
    cases hholds
    have hqueue : (queue.map Entry.item).head? = none := h.list.chain.head?.trans hhead
    rw [List.head?_eq_none_iff, List.map_eq_nil_iff] at hqueue
    rw [h.inserted, hqueue, List.append_nil, List.append_nil]

/-! ## The threads that schedule work -/

variable [DecidableEq T]

/-- A thread comes to a place where it has no item. -/
theorem OwnItems.leave (h : OwnItems item scheduling) (x : Scheduling) (hx : x.item = none) :
    OwnItems item (Function.update scheduling t x) := by
  have hold : ∀ u j, ((Function.update scheduling t x) u).item = some j →
      (scheduling u).item = some j := by
    intro u j hj
    rcases eq_or_ne u t with rfl | hne
    · rw [Function.update_self, hx] at hj
      cases hj
    · rwa [Function.update_of_ne hne] at hj
  refine ⟨fun u j hj => h.allocated u j (hold u j hj),
    fun u v j hu hv => h.once u v j (hold u j hu) (hold v j hv), fun u j callback data hj => ?_⟩
  rcases eq_or_ne u t with rfl | hne
  · rw [Function.update_self] at hj
    rw [hj] at hx
    cases hx
  · rw [Function.update_of_ne hne] at hj
    exact h.filled u j callback data hj

/-- A thread gets the item `i`, which no other thread has, or goes on with it. -/
theorem OwnItems.enter (h : OwnItems item scheduling) (x : Scheduling) (hx : x.item = some i)
    (hother : ∀ u, (scheduling u).item = some i → u = t) (record : WorkqueueItem)
    (hfilled : ∀ callback data, x = .insert i callback data → record = ⟨callback, data, none⟩) :
    OwnItems (Function.update item i (some record)) (Function.update scheduling t x) := by
  have hold : ∀ u j, u ≠ t → ((Function.update scheduling t x) u).item = some j →
      (scheduling u).item = some j ∧ j ≠ i := by
    intro u j hne hj
    rw [Function.update_of_ne hne] at hj
    refine ⟨hj, ?_⟩
    rintro rfl
    exact hne (hother u hj)
  have hself : ∀ j, ((Function.update scheduling t x) t).item = some j → j = i := by
    intro j hj
    rw [Function.update_self, hx] at hj
    exact (Option.some.inj hj).symm
  refine ⟨fun u j hj => ?_, fun u v j hu hv => ?_, fun u j callback data hj => ?_⟩
  · rcases eq_or_ne u t with rfl | hne
    · rw [hself j hj, Function.update_self]
      exact Option.some_ne_none _
    · obtain ⟨hj, hji⟩ := hold u j hne hj
      rw [Function.update_of_ne hji]
      exact h.allocated u j hj
  · -- two threads never have one item: `t` alone has `i`
    rcases eq_or_ne u t with rfl | hut
    · rcases eq_or_ne v u with rfl | hvu
      · rfl
      · exact absurd (hself j hu) (hold v j hvu hv).2
    · rcases eq_or_ne v t with rfl | hvt
      · exact absurd (hself j hv) (hold u j hut hu).2
      · exact h.once u v j (hold u j hut hu).1 (hold v j hvt hv).1
  · rcases eq_or_ne u t with rfl | hne
    · rw [Function.update_self] at hj
      obtain rfl : i = j := by
        rw [hj] at hx
        exact (Option.some.inj hx).symm
      rw [Function.update_self, hfilled callback data hj]
    · have hitem : ((Function.update scheduling t x) u).item = some j := by rw [hj]; rfl
      rw [Function.update_of_ne (hold u j hne hitem).2]
      rw [Function.update_of_ne hne] at hj
      exact h.filled u j callback data hj

/-- A thread stores into its own item, and comes to a place where it has it. -/
theorem Inv.enter (h : Inv s held queue) (x : Scheduling) (hx : x.item = some i)
    (hother : ∀ u, (s.scheduling u).item = some i → u = t)
    (hi : i ∉ (held ++ queue).map Entry.item) (record : WorkqueueItem)
    (hfilled : ∀ callback data, x = .insert i callback data → record = ⟨callback, data, none⟩) :
    Inv { s with
      item := Function.update s.item i (some record)
      scheduling := Function.update s.scheduling t x } held queue where
  holds := h.holds
  list := isList_update h.list fun hmem => hi (by
    rw [List.map_append]
    exact List.mem_append_right _ hmem)
  stored e he := (h.stored e he).update fun heq => hi (heq ▸ List.mem_map_of_mem he)
  nodup := h.nodup
  inserted := h.inserted
  invoked := h.invoked
  returned := h.returned
  own := h.own.enter x hx hother record hfilled
  apart u j hj := by
    rcases eq_or_ne u t with rfl | hne
    · have hji : (Function.update s.scheduling u x u).item = some j := hj
      rw [Function.update_self, hx] at hji
      obtain rfl := Option.some.inj hji
      exact hi
    · have hold : (Function.update s.scheduling t x u).item = some j := hj
      rw [Function.update_of_ne hne] at hold
      exact h.apart u j hold

/-- A thread comes to a place where it has no item. -/
theorem Inv.leave (h : Inv s held queue) (x : Scheduling) (hx : x.item = none) :
    Inv { s with scheduling := Function.update s.scheduling t x } held queue where
  holds := h.holds
  list := h.list
  stored := h.stored
  nodup := h.nodup
  inserted := h.inserted
  invoked := h.invoked
  returned := h.returned
  own := h.own.leave x hx
  apart u j hj := by
    have hold : (Function.update s.scheduling t x u).item = some j := hj
    rcases eq_or_ne u t with rfl | hne
    · rw [Function.update_self, hx] at hold
      cases hold
    · rw [Function.update_of_ne hne] at hold
      exact h.apart u j hold

theorem Inv.memAlloc (h : Inv s held queue) {callback data : ℕ} {result : Option ItemId}
    (hresult : ∀ i ∈ result, s.item i = none) :
    Inv (s.memAlloc t callback data result) held queue := by
  cases result with
  | none => exact ⟨h.holds, h.list, h.stored, h.nodup, h.inserted, h.invoked, h.returned, h.own,
      h.apart⟩
  | some i =>
    have hfree : s.item i = none := hresult i rfl
    refine h.enter _ rfl (fun u hu => absurd hfree (h.own.allocated u i hu)) (fun hmem => ?_) _ ?_
    · obtain ⟨e, he, rfl⟩ := List.mem_map.mp hmem
      obtain ⟨next, hnext⟩ := h.stored e he
      rw [hfree] at hnext
      cases hnext
    · intro callback' data' heq
      cases heq

/-- An item comes into the list. -/
theorem Inv.insert (h : Inv s held queue) {callback data : ℕ}
    (hpc : s.scheduling t = .insert i callback data) :
    ∃ s₁, s.link i = .ok s₁ ∧ Inv { s₁ with
      scheduling := Function.update s₁.scheduling t .outside
      inserted := s₁.inserted ++ [⟨i, callback, data⟩] } held (queue ++ [⟨i, callback, data⟩]) := by
  have hown : (s.scheduling t).item = some i := by rw [hpc]; rfl
  have hrecord := h.own.filled t i callback data hpc
  have hapart := h.apart t i hown
  have hqueue : i ∉ queue.map Entry.item := fun hmem => hapart (by
    rw [List.map_append]
    exact List.mem_append_right _ hmem)
  obtain ⟨item', head', hok, hlist, hkept, hother⟩ := link_eq h.list
    (fun e he => h.stored e (List.mem_append_right _ he)) hqueue (by rw [links, hrecord]; rfl)
  have hrecord' : item' i = some ⟨callback, data, none⟩ := by rw [hother i hqueue, hrecord]
  -- an item of another thread is not in the list, so `link` does not store into it
  have hitem : ∀ u j, (s.scheduling u).item = some j → item' j = s.item j := fun u j hj =>
    hother j fun hmem => h.apart u j hj (by
      rw [List.map_append]
      exact List.mem_append_right _ hmem)
  refine ⟨_, hok, h.holds, ?_, fun e he => ?_, ?_, ?_, h.invoked, h.returned,
    (h.own.congr hitem).leave .outside rfl, fun u j hj hmem => ?_⟩
  · rw [List.map_append]
    exact hlist
  · rw [← List.append_assoc] at he
    rcases List.mem_append.mp he with he | he
    · exact hkept e (h.stored e he)
    · obtain rfl := List.mem_singleton.mp he
      exact ⟨none, hrecord'⟩
  · rw [← List.append_assoc, List.map_append]
    exact (List.perm_append_singleton i _).nodup_iff.mpr (List.nodup_cons.mpr ⟨hapart, h.nodup⟩)
  · simp only [h.inserted, List.append_assoc]
  · -- the thread has given its item away, and nobody else had it
    have hold : (Function.update s.scheduling t .outside u).item = some j := hj
    rcases eq_or_ne u t with rfl | hne
    · rw [Function.update_self] at hold
      cases hold
    · rw [Function.update_of_ne hne] at hold
      rw [← List.append_assoc, List.map_append] at hmem
      rcases List.mem_append.mp hmem with hmem | hmem
      · exact h.apart u j hold hmem
      · obtain rfl := List.mem_singleton.mp hmem
        exact hne (h.own.once u t _ hold hown)

/-- Every event that can come is safe. -/
theorem Inv.exec {w : T} {ev : Event T} (h : Inv s held queue) (hen : s.Enabled w ev) :
    Safe (s.exec w ev) := by
  cases ev with
  | call t callback data => exact ⟨held, queue, h.leave (.alloc callback data) rfl⟩
  | malloc t result =>
    cases hpc : s.scheduling t with
    | alloc callback data =>
      rw [State.exec, hpc]
      exact ⟨held, queue, h.memAlloc hen.2.2⟩
    | outside | fill | insert =>
      rw [State.exec, hpc]
      exact ⟨held, queue, h⟩
  | fill t =>
    cases hpc : s.scheduling t with
    | fill item callback data =>
      have hown : (s.scheduling t).item = some item := by rw [hpc]; rfl
      obtain ⟨record, hrecord⟩ := Option.ne_none_iff_exists'.mp (h.own.allocated t item hown)
      rw [State.exec, hpc]
      simp only [State.deref, hrecord, Result.ok_bind]
      -- the item is its own, and its fields are stored
      refine ⟨held, queue, h.enter _ rfl (fun u hu => h.own.once u t item hu hown)
        (h.apart t item hown) _ fun callback' data' heq => ?_⟩
      obtain ⟨-, rfl, rfl⟩ := Scheduling.insert.inj heq
      rfl
    | outside | alloc | insert =>
      rw [State.exec, hpc]
      exact ⟨held, queue, h⟩
  | insert t =>
    cases hpc : s.scheduling t with
    | insert item callback data =>
      obtain ⟨s₁, hok, h₁⟩ := h.insert hpc
      rw [State.exec, hpc]
      simp only [hok, Result.ok_bind]
      -- the item is on the list, and the workqueue thread is woken
      exact h₁.threadWakeupOne
    | outside | alloc | fill =>
      rw [State.exec, hpc]
      exact ⟨held, queue, h⟩
  | worker =>
    cases hpc : s.worker with
    | loop =>
      rw [State.exec, hpc]
      exact h.nextItem hpc
    | invoke item =>
      rw [State.exec, hpc]
      exact h.invoke hpc
    | running e =>
      rw [State.exec, hpc]
      exact ⟨held, queue, h⟩
    | free e =>
      rw [State.exec, hpc]
      exact h.memFree hpc
  | callbackReturns =>
    cases hpc : s.worker with
    | running e =>
      rw [State.exec, hpc]
      exact h.callbackReturns hpc
    | loop | invoke | free =>
      rw [State.exec, hpc]
      exact ⟨held, queue, h⟩
  | wait | wakeAll | memFree =>
    exact ⟨held, queue, h.holds, h.list, h.stored, h.nodup, h.inserted, h.invoked, h.returned,
      h.own, h.apart⟩

/-- A step of the workqueue thread, from each place in its loop. -/
theorem Inv.advances {w : T} (h : Inv s held queue) (hok : s.exec w .worker = .ok s') :
    s.Advances w s' := by
  refine ⟨fun hpc hhead => ?_, fun i hpc hhead => ?_, fun i hpc => ?_, fun e hpc => ?_⟩
  · simp only [State.exec, hpc, State.nextItem, hhead, Except.ok.injEq] at hok
    subst hok
    exact ⟨rfl, List.mem_append_right _ (List.mem_singleton_self w)⟩
  · simp only [State.exec, hpc, State.nextItem, hhead] at hok
    obtain ⟨record, -, hok⟩ := Result.bind_eq_ok.mp hok
    obtain rfl := Result.pure_eq_ok.mp hok
    rfl
  · have hholds := h.holds
    rw [hpc] at hholds
    cases hholds with
    | invoke e =>
      obtain ⟨next, hrecord⟩ := h.stored e (by simp)
      simp only [State.exec, hpc, State.invoke, State.deref, hrecord, Result.ok_bind] at hok
      obtain rfl := Result.pure_eq_ok.mp hok
      refine ⟨e, rfl, ?_, rfl, rfl⟩
      -- the items before it have all been freed
      have hinvoked : s.invoked = s.freed := by simpa [hpc, WorkerPc.begun] using h.invoked
      simp [hinvoked, h.inserted]
  · simp only [State.exec, hpc, State.memFree] at hok
    obtain ⟨_, -, hok⟩ := Result.bind_eq_ok.mp hok
    obtain ⟨_, -, hok⟩ := Result.bind_eq_ok.mp hok
    obtain rfl := Result.pure_eq_ok.mp hok
    exact ⟨rfl, rfl, Function.update_self ..⟩

/-- A callback that returns has been running. -/
theorem State.exec_callbackReturns {w : T} (hen : s.Enabled w .callbackReturns)
    (hok : s.exec w .callbackReturns = .ok s') :
    ∃ e, s.worker = .running e ∧ s'.worker = .free e ∧ s'.returned = s.returned ++ [e] := by
  have hrunning := hen.2.2
  cases hpc : s.worker with
  | running e =>
    simp only [State.exec, hpc, Except.ok.injEq] at hok
    subst hok
    exact ⟨e, rfl, rfl, rfl⟩
  | loop | invoke | free => simp [State.inCallback, hpc] at hrunning

/-- The atomic section of `workqueue_schedule_work` puts the item behind all others. -/
theorem State.exec_insert {w : T} {callback data : ℕ}
    (hpc : s.scheduling t = .insert i callback data) (hok : s.exec w (.insert t) = .ok s') :
    s'.inserted = s.inserted ++ [⟨i, callback, data⟩] := by
  simp only [State.exec, hpc] at hok
  obtain ⟨s₁, hlink, hok⟩ := Result.bind_eq_ok.mp hok
  obtain ⟨_, _, _, -, rfl⟩ := State.link_eq_ok hlink
  rw [State.threadWakeupOne_eq_ok hok]

/-- No other event moves the workqueue thread on. -/
theorem State.exec_frame {w : T} {ev : Event T} (hworker : ev ≠ .worker)
    (hreturns : ev ≠ .callbackReturns) (hok : s.exec w ev = .ok s') :
    s'.worker = s.worker ∧ s'.invoked = s.invoked ∧ s'.returned = s.returned ∧
      s'.freed = s.freed := by
  cases ev with
  | worker => exact absurd rfl hworker
  | callbackReturns => exact absurd rfl hreturns
  | call | wait | wakeAll | memFree =>
    obtain rfl := Except.ok.inj hok
    exact ⟨rfl, rfl, rfl, rfl⟩
  | malloc t result =>
    simp only [State.exec] at hok
    split at hok
    · obtain rfl := Except.ok.inj hok
      cases result <;> exact ⟨rfl, rfl, rfl, rfl⟩
    · obtain rfl := Except.ok.inj hok
      exact ⟨rfl, rfl, rfl, rfl⟩
  | fill t =>
    simp only [State.exec] at hok
    split at hok
    · obtain ⟨_, -, hok⟩ := Result.bind_eq_ok.mp hok
      obtain rfl := Result.pure_eq_ok.mp hok
      exact ⟨rfl, rfl, rfl, rfl⟩
    · obtain rfl := Except.ok.inj hok
      exact ⟨rfl, rfl, rfl, rfl⟩
  | insert t =>
    simp only [State.exec] at hok
    split at hok
    · obtain ⟨s₁, hlink, hok⟩ := Result.bind_eq_ok.mp hok
      obtain ⟨_, _, _, -, rfl⟩ := State.link_eq_ok hlink
      rw [State.threadWakeupOne_eq_ok hok]
      exact ⟨rfl, rfl, rfl, rfl⟩
    · obtain rfl := Except.ok.inj hok
      exact ⟨rfl, rfl, rfl, rfl⟩

/-- A step keeps the invariant. -/
theorem inv_step {w : T} {ev : Event T} (hs : State.Step w s ev s')
    (h : ∃ held queue, Inv s held queue) : ∃ held queue, Inv s' held queue := by
  obtain ⟨held, queue, h⟩ := h
  obtain ⟨hen, hok⟩ : s.Enabled w ev ∧ s.exec w ev = .ok s' := hs
  have hsafe := h.exec hen
  rw [hok] at hsafe
  exact hsafe

/-- The invariant holds in every state of a run. -/
theorem inv_of_run {w : T} {s₀ : State T} {tr : List (State T × Event T)}
    (hr : Run (State.Step w) s₀ tr s) (h₀ : s₀.Initial) : ∃ held queue, Inv s held queue :=
  hr.invariant (I := fun s => ∃ held queue, Inv s held queue) ⟨[], [], h₀.inv⟩
    fun _ _ _ hI hs => inv_step hs hI

/-- For any interleaving of calls of `workqueue_schedule_work`, by any threads and by the callbacks,
with the loop of the workqueue thread:

* the work is done in order;
* a thread that has filled its item puts it behind all others;
* a step of the workqueue thread brings the item that it has taken on: the callback is called with
  what the item was scheduled for, and the item is freed behind it;
* in between the callback returns, and nothing else moves the workqueue thread on;
* no step accesses an item that is not allocated or finds the tail null in a list that is not
  empty. -/
theorem inOrder_of_run {w : T} {s₀ : State T} {tr : List (State T × Event T)}
    (hr : Run (State.Step w) s₀ tr s) (h₀ : s₀.Initial) : s.InOrder ∧
      (∀ t i callback data s', State.Step w s (.insert t) s' →
        s.scheduling t = .insert i callback data →
        s'.inserted = s.inserted ++ [⟨i, callback, data⟩]) ∧
      (∀ s', State.Step w s .worker s' → s.Advances w s') ∧
      (∀ s', State.Step w s .callbackReturns s' →
        ∃ e, s.worker = .running e ∧ s'.worker = .free e ∧ s'.returned = s.returned ++ [e]) ∧
      (∀ ev s', State.Step w s ev s' → ev ≠ .worker → ev ≠ .callbackReturns →
        s'.worker = s.worker ∧ s'.invoked = s.invoked ∧ s'.returned = s.returned ∧
          s'.freed = s.freed) ∧
      ∀ ev, s.Enabled w ev → ∀ f, s.exec w ev = .error f →
        f = .assertion .waitqueueNotEmpty ∨ f = .assertion .inHeap := by
  obtain ⟨held, queue, h⟩ := inv_of_run hr h₀
  refine ⟨h.inOrder, fun t i callback data s' hs hpc => State.exec_insert hpc hs.2,
    fun s' hs => h.advances hs.2, fun s' hs => State.exec_callbackReturns hs.1 hs.2,
    fun ev s' hs hworker hreturns => State.exec_frame hworker hreturns hs.2,
    fun ev hen f hf => ?_⟩
  have hsafe := h.exec hen
  rw [hf] at hsafe
  exact hsafe

/-- Before the first call, with a heap of 100 bytes. -/
def initial : State ℕ where
  item _ := none
  gHeapstart := 0
  gHeapend := 100
  sWorkqueueHead := none
  sWorkqueueTail := none
  sWaitqueue := []
  sHeapWaitqueue := []
  scheduling _ := .outside
  worker := .loop
  inserted := []
  invoked := []
  returned := []
  freed := []

/-- The workqueue thread, here thread 0, goes to sleep. Thread 1 schedules work and wakes it, the
callback schedules work itself, and the first item is freed. -/
theorem inOrder_of_run_callbackSchedules :
    ∃ tr s, Run (State.Step 0) initial tr s ∧ s.freed = [⟨5, 10, 11⟩] ∧
      s.inserted = [⟨5, 10, 11⟩, ⟨6, 12, 13⟩] ∧ s.InOrder := by
  obtain ⟨tr, s, hr, hfreed, hinserted⟩ : ∃ tr s, Run (State.Step 0) initial tr s ∧
      s.freed = [⟨5, 10, 11⟩] ∧ s.inserted = [⟨5, 10, 11⟩, ⟨6, 12, 13⟩] :=
    exists_run (P := fun _ (s : State ℕ) => s.freed = [⟨5, 10, 11⟩] ∧
      s.inserted = [⟨5, 10, 11⟩, ⟨6, 12, 13⟩]) (show (runs _ _ initial [.worker, .call 1 10 11,
        .malloc 1 none, .memFree, .malloc 1 (some 5), .fill 1, .insert 1, .worker, .worker,
        .wait 1, .call 0 12 13, .malloc 0 (some 6), .fill 0, .insert 0, .callbackReturns,
        .worker]).any _ = true by decide)
  refine ⟨tr, s, hr, hfreed, hinserted, (inOrder_of_run hr ?_).1⟩
  exact ⟨fun _ => rfl, rfl, rfl, fun _ => rfl, rfl, rfl, rfl, rfl, rfl⟩

end GeekOS.Workqueue
