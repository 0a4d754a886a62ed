import GeekOS.Heap.Release
import GeekOS.Library.Execution

/-!
# Programs that use the heap

Any sequence of calls of `malloc` and `free` and of stores into what has been allocated. An object
is what `malloc` has returned and `free` has not been given yet, with what the program has stored
into its bytes.

* `Coherent`: the objects are the blocks in use of an arena that the heap stands for;
* `objects_of_run`: the objects lie apart from each other inside of the heap, their bytes are what was
  stored into them last, and every loop of the two functions ends;
* `arena_of_run`: the heap stands for the arena that the calls make of an empty one, and
  `malloc` returns what `Arena.alloc` returns;
* `free_list_of_run`: when everything has been freed, one chunk is left;
* `malloc_after_free`: what has been freed can be allocated again.
-/

namespace GeekOS.Memory.Heap

open Arena LinkedList

/-- More rounds than there can be entries in a list. -/
def rounds : ℕ := 2 ^ 32

/-- Store one byte. -/
def poke (h : Heap) (a : ℕ) (v : UInt8) : Heap := { h with mem := Function.update h.mem a v }

/-- What `malloc` has returned. -/
structure Object where
  addr : ℕ
  /-- History: what was stored last into each byte that was asked for. -/
  data : List (Option UInt8)
  deriving DecidableEq, Repr

/-- The heap, and the objects in it. -/
structure State where
  heap : Heap
  /-- History: what has been allocated and not been freed. -/
  objects : List Object

/-- What the program does. -/
inductive Event
  | malloc (len : ℕ)
  | free (p : ℕ)
  /-- Store a byte into the object at `p`. -/
  | store (p i : ℕ) (v : UInt8)
  deriving DecidableEq, Repr

/-- What keeps the program from going on. -/
inductive HeapFault
  /-- A loop does not end. -/
  | endless
  deriving DecidableEq, Repr

namespace State

variable (s : State)

/-- What becomes of the objects when a byte is stored. -/
def storeObject (p i : ℕ) (v : UInt8) (o : Object) : Object :=
  if o.addr = p then { o with data := o.data.set i (some v) } else o

/-- Carry out an event. -/
def exec : Event → Except HeapFault State
  | .malloc len =>
      match s.heap.malloc rounds len with
      | none => .error .endless
      | some (p, heap) =>
          if p = 0 then pure { s with heap }
          else pure { heap, objects := ⟨p, List.replicate len none⟩ :: s.objects }
  | .free p =>
      match s.heap.free rounds p with
      | none => .error .endless
      | some heap => pure { heap, objects := s.objects.filter fun o => o.addr ≠ p }
  | .store p i v =>
      pure { heap := s.heap.poke (p + i) v, objects := s.objects.map (storeObject p i v) }

/-- The program frees null or what it has allocated, and stores where it has asked for memory. -/
def Enabled : Event → Prop
  | .malloc len => len < 2 ^ 32
  | .free p => p = 0 ∨ ∃ o ∈ s.objects, o.addr = p
  | .store p i _ => ∃ o ∈ s.objects, o.addr = p ∧ i < o.data.length

instance (e : Event) : Decidable (s.Enabled e) := by
  induction e using Event.casesOn <;> unfold Enabled <;> infer_instance

/-- One step. -/
def Step : State → Event → State → Prop := TransitionSystem.stepOf Enabled exec

/-- The heap as `mem_heap_init` leaves it. -/
structure Initial : Prop where
  start : sizeofSize ≤ s.heap.heapstart
  le : s.heap.heapstart ≤ s.heap.heapend
  heapend : s.heap.heapend < 2 ^ 32
  brkval : s.heap.brkval = 0
  flp : s.heap.flp = 0
  objects : s.objects = []

/-- The objects are the blocks in use. -/
structure Coherent (bs : List Block) : Prop where
  represents : s.heap.Represents bs
  nodup : (s.objects.map Object.addr).Nodup
  object : ∀ b ∈ bs, b.used = true → ∃ o ∈ s.objects, o.addr = b.payload sizeofSize
  block : ∀ o ∈ s.objects, ∃ b ∈ bs, b.used = true ∧ b.payload sizeofSize = o.addr ∧
    o.data.length ≤ b.size
  data : ∀ o ∈ s.objects, ∀ (i : ℕ) (v : UInt8), o.data[i]? = some (some v) →
    s.heap.mem (o.addr + i) = v

end State

variable {h h' : Heap} {bs bs' xs ys : List Block} {b c : Block} {len lo a i p : ℕ} {v : UInt8}

/-! ## One call -/

/-- The bytes of a block in use are not stored into. -/
theorem Keeps.mem_eq {bs₀ : List Block} (hk : Keeps bs₀ h h') (htiles : Tiles sizeofSize lo bs₀ h.top)
    (hb : b ∈ bs₀) (hused : b.used = true) (hle : b.addr ≤ i) (hlt : i < b.stop sizeofSize) :
    h'.mem i = h.mem i := by
  by_contra hne
  rcases hk.mem i hne with ⟨c, hc, hfree, hcle, hclt⟩ | ⟨htop, -⟩
  · have hbc : b ≠ c := by
      rintro rfl
      rw [hused] at hfree
      cases hfree
    have hdisjoint := htiles.disjoint hb hc hbc
    omega
  · have hstop := (htiles.inside hb).2
    omega

/-- What `malloc` returns, and which arena the heap stands for then. -/
theorem Represents.malloc_cases (hr : h.Represents bs) (hlen : len < 2 ^ 32) :
    ∃ p h' bs', h.malloc rounds len = some (p, h') ∧ h'.Represents bs' ∧ Keeps bs h h' ∧
      (alloc sizeofSize sizeofSize h.heapend (max len sizeofSize) bs h.top = none ∧ p = 0 ∧
          bs' = bs ∧ h'.top = h.top ∨
        alloc sizeofSize sizeofSize h.heapend (max len sizeofSize) bs h.top =
            some (p, bs', h'.top) ∧ 0 < p) := by
  have hrounds : bs.length < rounds := hr.length_lt
  cases halloc : alloc sizeofSize sizeofSize h.heapend (max len sizeofSize) bs h.top with
  | none =>
    obtain ⟨h', heq, hrep, htop, hkeeps⟩ := hr.malloc_none hlen hrounds halloc
    exact ⟨0, h', bs, heq, hrep, hkeeps, .inl ⟨rfl, rfl, rfl, htop⟩⟩
  | some r =>
    obtain ⟨p, bs', top'⟩ := r
    obtain ⟨h', heq, hrep, rfl, hkeeps⟩ := hr.malloc hlen hrounds halloc
    refine ⟨p, h', bs', heq, hrep, hkeeps, .inr ⟨rfl, ?_⟩⟩
    obtain ⟨l₁, d, l₂, -, hlive, rfl, -⟩ := live_alloc halloc
    have hd : d ∈ live bs' := by simp [hlive]
    have hpos := (hrep.lt (mem_live.mp hd).1).1
    unfold Block.payload
    omega

/-- A store into a block in use changes nothing of the chunks. -/
theorem Represents.poke (hr : h.Represents bs) (hb : b ∈ bs) (hused : b.used = true)
    (hle : b.payload sizeofSize ≤ a) (hlt : a < b.stop sizeofSize) :
    (h.poke a v).Represents bs := by
  unfold Block.payload at hle
  refine ⟨hr.tidy, ?_, ?_, hr.start, hr.top_le, hr.heapend⟩
  · intro c hc
    rw [← hr.header c hc]
    refine sz_congr fun i hcle hclt => Function.update_of_ne ?_ ..
    by_cases hbc : b = c
    · subst hbc
      unfold sizeofSize at hle
      omega
    · have hdisjoint := hr.tidy.tiles.disjoint hb hc hbc
      have hleast := (hr.lt hc).2.2.1
      unfold Block.stop at *
      unfold sizeofSize at *
      omega
  · refine hr.chain.congr ?_
    intro n hn
    obtain ⟨c, hc, rfl⟩ := List.mem_map.mp hn
    obtain ⟨hc, hfree⟩ := mem_free.mp hc
    refine next_congr fun i hcle hclt => Function.update_of_ne ?_ ..
    have hbc : b ≠ c := by
      rintro rfl
      rw [hused] at hfree
      cases hfree
    have hdisjoint := hr.tidy.tiles.disjoint hb hc hbc
    have hleast := (hr.lt hc).2.2.1
    unfold Block.stop at *
    unfold sizeofSize at *
    omega

/-! ## One step -/

namespace State

variable {s s' : State} {o : Object} {heap : Heap}

/-- No block in use has the address of another one. -/
theorem payload_inj (hr : h.Represents bs) (hb : b ∈ bs) (hc : c ∈ bs)
    (heq : b.payload sizeofSize = c.payload sizeofSize) : b = c := by
  by_contra hne
  have hdisjoint := hr.tidy.tiles.disjoint hb hc hne
  unfold Block.payload at heq
  unfold Block.stop sizeofSize at hdisjoint
  omega

/-- The bytes of an object are what they were, when its block was in use all the time. -/
theorem data_of_keeps {bs₀ : List Block} (hk : Keeps bs₀ s.heap heap)
    (htiles : Tiles sizeofSize lo bs₀ s.heap.top)
    (hblock : ∃ b ∈ bs₀, b.used = true ∧ b.payload sizeofSize = o.addr ∧ o.data.length ≤ b.size)
    (hdata : ∀ (i : ℕ) (v : UInt8), o.data[i]? = some (some v) → s.heap.mem (o.addr + i) = v)
    (hi : o.data[i]? = some (some v)) : heap.mem (o.addr + i) = v := by
  obtain ⟨b, hb, hused, haddr, hlen⟩ := hblock
  obtain ⟨hlt, -⟩ := List.getElem?_eq_some_iff.mp hi
  rw [← hdata i v hi]
  unfold Block.payload at haddr
  apply hk.mem_eq htiles hb hused
  · omega
  · unfold Block.stop
    omega

/-- A call of `malloc` that returns null changes no object. -/
theorem Coherent.malloc_null (hs : s.Coherent bs) (hr : heap.Represents bs)
    (hk : Keeps bs s.heap heap) : Coherent { s with heap } bs where
  represents := hr
  nodup := hs.nodup
  object := hs.object
  block := hs.block
  data o ho _ _ hi := data_of_keeps hk hs.represents.tidy.tiles (hs.block o ho) (hs.data o ho) hi

/-- A call that returns something else makes an object, apart from the others. -/
theorem Coherent.malloc_object (hs : s.Coherent bs) (hr : heap.Represents bs')
    (hk : Keeps bs s.heap heap) (halloc : alloc sizeofSize sizeofSize s.heap.heapend
      (max len sizeofSize) bs s.heap.top = some (p, bs', heap.top)) :
    Coherent { heap, objects := ⟨p, List.replicate len none⟩ :: s.objects } bs' := by
  obtain ⟨l₁, d, l₂, hold, hnew, rfl, hsize⟩ := live_alloc halloc
  have hd : d ∈ bs' ∧ d.used = true := mem_live.mp (by simp [hnew])
  -- the new block is the only one in use that was not in use before
  have hmem : ∀ c ∈ live bs, c ∈ bs' ∧ c ≠ d := by
    intro c hc
    have hc' : c ∈ live bs' := by
      rw [hnew]
      rw [hold] at hc
      simp only [List.mem_append, List.mem_cons] at hc ⊢
      tauto
    refine ⟨(mem_live.mp hc').1, ?_⟩
    -- the blocks in use are different ones
    have hnodup : (live bs').Nodup := by
      refine (hr.tidy.tiles.pairwise.sublist List.filter_sublist).imp ?_
      rintro x y hxy rfl
      unfold Block.stop sizeofSize at hxy
      omega
    rw [hnew, List.nodup_middle, List.nodup_cons] at hnodup
    rintro rfl
    exact hnodup.1 (hold ▸ hc)
  refine ⟨hr, ?_, ?_, ?_, ?_⟩
  · refine List.nodup_cons.mpr ⟨?_, hs.nodup⟩
    intro hp
    obtain ⟨o, ho, haddr⟩ := List.mem_map.mp hp
    obtain ⟨b, hb, hused, hbaddr, -⟩ := hs.block o ho
    obtain ⟨hb', hne⟩ := hmem b (mem_live.mpr ⟨hb, hused⟩)
    exact hne (payload_inj hr hb' hd.1 (hbaddr.trans haddr))
  · intro b hb hused
    by_cases hbd : b = d
    · exact ⟨_, List.mem_cons_self, by rw [hbd]⟩
    · have hold' : b ∈ live bs := by
        have hb' : b ∈ live bs' := mem_live.mpr ⟨hb, hused⟩
        rw [hnew] at hb'
        rw [hold]
        simp only [List.mem_append, List.mem_cons] at hb' ⊢
        tauto
      obtain ⟨o, ho, haddr⟩ := hs.object b (mem_live.mp hold').1 hused
      exact ⟨o, List.mem_cons_of_mem _ ho, haddr⟩
  · intro o ho
    rcases List.mem_cons.mp ho with rfl | ho
    · exact ⟨d, hd.1, hd.2, rfl, by rw [List.length_replicate]; omega⟩
    · obtain ⟨b, hb, hused, haddr, hlen⟩ := hs.block o ho
      exact ⟨b, (hmem b (mem_live.mpr ⟨hb, hused⟩)).1, hused, haddr, hlen⟩
  · intro o ho i v hi
    rcases List.mem_cons.mp ho with rfl | ho
    · obtain ⟨_, hv⟩ := List.getElem?_eq_some_iff.mp hi
      rw [List.getElem_replicate] at hv
      cases hv
    · exact data_of_keeps hk hs.represents.tidy.tiles (hs.block o ho) (hs.data o ho) hi

/-- Freeing an object leaves the others. -/
theorem Coherent.free (hs : s.Coherent (xs ++ b :: ys)) (hr : heap.Represents bs')
    (hk : Keeps (xs ++ { b with used := false } :: ys) s.heap heap)
    (hbs' : bs' = release sizeofSize (b.payload sizeofSize) (xs ++ b :: ys)) :
    Coherent { heap, objects := s.objects.filter fun o => o.addr ≠ b.payload sizeofSize } bs' := by
  have hlive : ∀ c, c ∈ bs' ∧ c.used = true ↔
      (c ∈ xs ++ b :: ys ∧ c.used = true) ∧ c.payload sizeofSize ≠ b.payload sizeofSize := by
    intro c
    rw [← mem_live, ← mem_live, hbs', live_release, List.mem_filter, decide_eq_true_eq]
  have hblock : ∀ o ∈ s.objects, o.addr ≠ b.payload sizeofSize →
      ∃ c, (c ∈ xs ++ b :: ys ∧ c.used = true) ∧ c.payload sizeofSize ≠ b.payload sizeofSize ∧
        c.payload sizeofSize = o.addr ∧ o.data.length ≤ c.size := by
    intro o ho hne
    obtain ⟨c, hc, hused, haddr, hlen⟩ := hs.block o ho
    exact ⟨c, ⟨hc, hused⟩, haddr ▸ hne, haddr, hlen⟩
  refine ⟨hr, ?_, ?_, ?_, ?_⟩
  · exact hs.nodup.sublist (List.filter_sublist.map _)
  · intro c hc hused
    obtain ⟨⟨hc, -⟩, hne⟩ := (hlive c).mp ⟨hc, hused⟩
    obtain ⟨o, ho, haddr⟩ := hs.object c hc hused
    exact ⟨o, List.mem_filter.mpr ⟨ho, by rw [haddr]; exact decide_eq_true hne⟩, haddr⟩
  · intro o ho
    obtain ⟨ho, hne⟩ := List.mem_filter.mp ho
    obtain ⟨c, hc, hcne, haddr, hlen⟩ := hblock o ho (of_decide_eq_true hne)
    obtain ⟨hc, hused⟩ := (hlive c).mpr ⟨hc, hcne⟩
    exact ⟨c, hc, hused, haddr, hlen⟩
  · intro o ho i v hi
    obtain ⟨ho, hne⟩ := List.mem_filter.mp ho
    obtain ⟨c, ⟨hc, hused⟩, hcne, haddr, hlen⟩ := hblock o ho (of_decide_eq_true hne)
    -- its block was in use before and after, so that `free` stored nothing into it
    have htiles : Tiles sizeofSize s.heap.heapstart (xs ++ { b with used := false } :: ys)
        s.heap.top := by
      obtain ⟨mid, hxs, hmid⟩ := tiles_append.mp hs.represents.tidy.tiles
      exact tiles_append.mpr ⟨mid, hxs, hmid.1, hmid.2⟩
    have hc' : c ∈ xs ++ { b with used := false } :: ys := by
      simp only [List.mem_append, List.mem_cons] at hc ⊢
      rcases hc with hc | rfl | hc
      · exact .inl hc
      · exact absurd rfl hcne
      · exact .inr (.inr hc)
    exact data_of_keeps hk htiles ⟨c, hc', hused, haddr, hlen⟩ (hs.data o ho) hi

/-- A store changes the object that it goes to. -/
theorem Coherent.store (hs : s.Coherent bs) (ho : o ∈ s.objects) (hi : i < o.data.length) :
    Coherent { heap := s.heap.poke (o.addr + i) v
               objects := s.objects.map (storeObject o.addr i v) } bs := by
  have haddr : ∀ o', (storeObject o.addr i v o').addr = o'.addr := by
    intro o'
    unfold storeObject
    split <;> rfl
  have hlength : ∀ o', (storeObject o.addr i v o').data.length = o'.data.length := by
    intro o'
    unfold storeObject
    split
    · exact List.length_set
    · rfl
  obtain ⟨b, hb, hused, hbaddr, hblen⟩ := hs.block o ho
  refine ⟨?_, ?_, ?_, ?_, ?_⟩
  · apply hs.represents.poke hb hused
    · omega
    · unfold Block.stop
      unfold Block.payload at hbaddr
      omega
  · have hmap : (s.objects.map (storeObject o.addr i v)).map Object.addr =
        s.objects.map Object.addr := by
      rw [List.map_map]
      exact List.map_congr_left fun o' _ => haddr o'
    rw [hmap]
    exact hs.nodup
  · intro c hc hcused
    obtain ⟨o', ho', ho'addr⟩ := hs.object c hc hcused
    exact ⟨_, List.mem_map_of_mem ho', (haddr o').trans ho'addr⟩
  · intro o' ho'
    obtain ⟨o'', ho'', rfl⟩ := List.mem_map.mp ho'
    rw [haddr, hlength]
    exact hs.block o'' ho''
  · intro o' ho' j w hj
    obtain ⟨o'', ho'', rfl⟩ := List.mem_map.mp ho'
    rw [haddr]
    unfold storeObject at hj
    split at hj
    next heq =>
      -- the object itself
      rw [heq]
      by_cases hij : i = j
      · subst hij
        obtain ⟨_, hv⟩ := List.getElem?_eq_some_iff.mp hj
        rw [List.getElem_set_self, Option.some.injEq] at hv
        rw [← hv]
        exact Function.update_self ..
      · rw [List.getElem?_set_ne hij] at hj
        rw [← hs.data o'' ho'' j w hj, heq]
        exact Function.update_of_ne (by omega) ..
    next hne =>
      -- another object, in another block
      rw [← hs.data o'' ho'' j w hj]
      refine Function.update_of_ne ?_ ..
      obtain ⟨c, hc, hcused, hcaddr, hclen⟩ := hs.block o'' ho''
      have hbc : b ≠ c := by
        rintro rfl
        exact hne (hcaddr.symm.trans hbaddr)
      have hdisjoint := hs.represents.tidy.tiles.disjoint hb hc hbc
      obtain ⟨hjlt, -⟩ := List.getElem?_eq_some_iff.mp hj
      unfold Block.stop at hdisjoint
      unfold Block.payload at hbaddr hcaddr
      omega

/-! ## Runs -/

open TransitionSystem

/-- What an event does to the arena: its blocks and where they end. -/
def arenaStep (limit : ℕ) (a : List Block × ℕ) : Event → List Block × ℕ
  | .malloc len =>
      match alloc sizeofSize sizeofSize limit (max len sizeofSize) a.1 a.2 with
      | some (_, bs, hi) => (bs, hi)
      | none => a
  | .free p => (release sizeofSize p a.1, a.2)
  | .store _ _ _ => a

variable {e : Event} {s₀ : State} {tr : List (State × Event)}

theorem Initial.coherent (h : s.Initial) : s.Coherent [] ∧ s.heap.top = s.heap.heapstart := by
  have htop : s.heap.top = s.heap.heapstart := if_pos h.brkval
  refine ⟨⟨⟨⟨htop.symm, by simp, .nil⟩, by simp, ?_, h.start, ?_, h.heapend⟩, ?_, by simp, ?_, ?_⟩,
    htop⟩
  · show Path s.heap.next (ptr s.heap.flp) [] none
    rw [h.flp]
    rfl
  · rw [htop]
    exact h.le
  · rw [h.objects]
    exact List.nodup_nil
  · rw [h.objects]
    simp
  · rw [h.objects]
    simp

/-- An event can be carried out, and does to the heap what it does to the arena. -/
theorem Coherent.exec (hs : s.Coherent bs) (he : s.Enabled e) :
    ∃ s' : State, s.exec e = .ok s' ∧
      s'.Coherent (arenaStep s.heap.heapend (bs, s.heap.top) e).1 ∧
      s'.heap.top = (arenaStep s.heap.heapend (bs, s.heap.top) e).2 ∧
      s'.heap.heapstart = s.heap.heapstart ∧ s'.heap.heapend = s.heap.heapend := by
  cases e with
  | malloc len =>
    obtain ⟨p, heap, bs', heq, hrep, hkeeps, hcase⟩ := hs.represents.malloc_cases he
    rw [State.exec, heq]
    dsimp only [arenaStep]
    rcases hcase with ⟨hnone, rfl, rfl, htop⟩ | ⟨hsome, hpos⟩
    · rw [hnone]
      exact ⟨_, if_pos rfl, hs.malloc_null hrep hkeeps, htop, hkeeps.heapstart, hkeeps.heapend⟩
    · rw [hsome]
      exact ⟨_, if_neg hpos.ne', hs.malloc_object hrep hkeeps hsome, rfl, hkeeps.heapstart,
        hkeeps.heapend⟩
  | free p =>
    by_cases hp : p = 0
    · -- a null pointer is nobody's
      subst hp
      have hne : ∀ c ∈ bs, c.payload sizeofSize ≠ 0 := by
        intro c hc
        have hpos := (hs.represents.lt hc).1
        unfold Block.payload
        omega
      have hobjects : s.objects.filter (fun o => o.addr ≠ 0) = s.objects := by
        refine List.filter_eq_self.mpr fun o ho => decide_eq_true ?_
        obtain ⟨c, hc, -, haddr, -⟩ := hs.block o ho
        rw [← haddr]
        exact hne c hc
      have hfree : s.heap.free rounds 0 = some s.heap := if_pos rfl
      dsimp only [arenaStep]
      rw [State.exec, hfree, release_of_ne hs.represents.tidy.parted hne]
      refine ⟨_, rfl, ?_, rfl, rfl, rfl⟩
      rwa [hobjects]
    · obtain ⟨o, ho, rfl⟩ := he.resolve_left hp
      obtain ⟨b, hb, hused, haddr, -⟩ := hs.block o ho
      obtain ⟨xs, ys, rfl⟩ := List.append_of_mem hb
      obtain ⟨heap, heq, hrep, htop, hkeeps⟩ :=
        hs.represents.free hused hs.represents.length_lt
      rw [State.exec, ← haddr, show s.heap.free rounds _ = _ from heq]
      exact ⟨_, rfl, hs.free hrep hkeeps rfl, htop, hkeeps.heapstart, hkeeps.heapend⟩
  | store p i v =>
    obtain ⟨o, ho, rfl, hi⟩ := he
    exact ⟨_, rfl, hs.store ho hi, rfl, rfl, rfl⟩

theorem Coherent.step (hs : s.Coherent bs) (h : Step s e s') :
    s'.Coherent (arenaStep s.heap.heapend (bs, s.heap.top) e).1 ∧
      s'.heap.top = (arenaStep s.heap.heapend (bs, s.heap.top) e).2 ∧
      s'.heap.heapstart = s.heap.heapstart ∧ s'.heap.heapend = s.heap.heapend := by
  obtain ⟨s'', heq, hcoherent⟩ := hs.exec h.1
  obtain rfl : s'' = s' := by simpa using heq.symm.trans h.2
  exact hcoherent

/-- The arena that the events of a run make of an empty one. -/
def arenaOf (s₀ : State) (tr : List (State × Event)) : List Block × ℕ :=
  (tr.map Prod.snd).foldl (arenaStep s₀.heap.heapend) ([], s₀.heap.heapstart)

theorem coherent_of_run (h₀ : s₀.Initial) (h : Run Step s₀ tr s) :
    s.Coherent (arenaOf s₀ tr).1 ∧ s.heap.top = (arenaOf s₀ tr).2 ∧
      s.heap.heapstart = s₀.heap.heapstart ∧ s.heap.heapend = s₀.heap.heapend := by
  induction h with
  | nil => exact ⟨h₀.coherent.1, h₀.coherent.2, rfl, rfl⟩
  | @snoc s s' tr e _ hstep ih =>
    obtain ⟨hs, htop, hstart, hend⟩ := ih
    obtain ⟨hs', htop', hstart', hend'⟩ := hs.step hstep
    rw [hend, htop] at hs' htop'
    have harena : arenaOf s₀ (tr ++ [(s, e)]) =
        arenaStep s₀.heap.heapend (arenaOf s₀ tr) e := by
      rw [arenaOf, List.map_append, List.foldl_append]
      rfl
    rw [harena]
    exact ⟨hs', htop', hstart'.trans hstart, hend'.trans hend⟩

/-- What a program may rely on. -/
structure Sound (s : State) : Prop where
  /-- Two objects share no byte, and there is a header between them. -/
  apart : s.objects.Pairwise fun o o' =>
    o.addr + o.data.length + sizeofSize ≤ o'.addr ∨ o'.addr + o'.data.length + sizeofSize ≤ o.addr
  /-- An object lies inside of the heap. -/
  inside : ∀ o ∈ s.objects,
    s.heap.heapstart < o.addr ∧ o.addr < s.heap.heapend ∧
      o.addr + o.data.length ≤ s.heap.heapend
  /-- The bytes of an object are what was stored into them last. -/
  data : ∀ o ∈ s.objects, ∀ (i : ℕ) (v : UInt8), o.data[i]? = some (some v) →
    s.heap.mem (o.addr + i) = v
  /-- No loop goes on for ever. -/
  safe : ∀ e, s.Enabled e → ∃ s', s.exec e = .ok s'

theorem Coherent.sound (hs : s.Coherent bs) : s.Sound where
  apart := by
    refine (List.pairwise_map.mp hs.nodup).imp_of_mem ?_
    intro o o' ho ho' hne
    obtain ⟨b, hb, -, hbaddr, hblen⟩ := hs.block o ho
    obtain ⟨c, hc, -, hcaddr, hclen⟩ := hs.block o' ho'
    have hbc : b ≠ c := by
      rintro rfl
      exact hne (hbaddr.symm.trans hcaddr)
    have hdisjoint := hs.represents.tidy.tiles.disjoint hb hc hbc
    unfold Block.stop at hdisjoint
    unfold Block.payload at hbaddr hcaddr
    omega
  inside o ho := by
    obtain ⟨b, hb, -, haddr, hlen⟩ := hs.block o ho
    have hlo := (hs.represents.tidy.tiles.inside hb).1
    obtain ⟨-, hhi, hleast, -⟩ := hs.represents.lt hb
    have htop := hs.represents.top_le
    unfold Block.payload at haddr
    unfold sizeofSize at *
    omega
  data := hs.data
  safe _ he := by
    obtain ⟨s', heq, -⟩ := hs.exec he
    exact ⟨s', heq⟩

/-- Whatever the program allocates, stores and frees, its objects are its own. -/
theorem objects_of_run (h₀ : s₀.Initial) (h : Run Step s₀ tr s) : s.Sound :=
  (coherent_of_run h₀ h).1.sound

/-- The heap that `mem_init` makes, in whatever memory. -/
theorem initial_of_memInit {endAddr memUpper : ℕ} {m : MemState} (hfits : Fits endAddr memUpper)
    (h : memInit endAddr memUpper = .ok m) (mem : Words.Memory) :
    Initial { heap := { mem, heapstart := m.heapstart, heapend := m.heapend }, objects := [] } := by
  obtain ⟨m', heq, -, hstart, hend, -⟩ := memInit_ok hfits
  obtain rfl : m' = m := by simpa using heq.symm.trans h
  refine ⟨?_, ?_, ?_, rfl, rfl, rfl⟩
  · show sizeofSize ≤ m'.heapstart
    rw [hstart]
    decide
  · show m'.heapstart ≤ m'.heapend
    rw [hstart, hend]
    decide
  · show m'.heapend < 2 ^ 32
    rw [hend]
    decide

/-- A heap of 48 bytes. -/
def smallHeap : State where
  heap := { mem := fun _ => 0, heapstart := 16, heapend := 64 }
  objects := []

theorem smallHeap_initial : smallHeap.Initial :=
  ⟨by decide, by decide, by decide, rfl, rfl, rfl⟩

/-- Two objects, of which the first one is freed and another one takes its place; then there is no
room for a third one. -/
def twoObjects : List Event :=
  [.malloc 8, .malloc 3, .store 20 7 5, .store 32 0 9, .free 20, .malloc 5, .store 20 1 3,
    .malloc 25]

theorem objects_twoObjects :
    (after Enabled State.exec smallHeap twoObjects).objects =
        [⟨20, [none, some 3, none, none, none]⟩, ⟨32, [some 9, none, none]⟩] ∧
      (after Enabled State.exec smallHeap twoObjects).Sound := by
  have hruns : (runs Enabled State.exec smallHeap twoObjects).isSome := by
    decide +kernel
  obtain ⟨tr, hr⟩ := run_after hruns
  exact ⟨by decide +kernel, objects_of_run smallHeap_initial hr⟩

/-- The heap stands for the arena that the calls make of an empty one, and the next call of `malloc`
returns what is handed out from it. -/
theorem arena_of_run (h₀ : s₀.Initial) (h : Run Step s₀ tr s) :
    s.heap.Represents (arenaOf s₀ tr).1 ∧ s.heap.top = (arenaOf s₀ tr).2 ∧
      ∀ len < 2 ^ 32, (s.heap.malloc rounds len).map Prod.fst =
        some (((alloc sizeofSize sizeofSize s₀.heap.heapend (max len sizeofSize)
          (arenaOf s₀ tr).1 (arenaOf s₀ tr).2).map Prod.fst).getD 0) := by
  obtain ⟨hs, htop, -, hend⟩ := coherent_of_run h₀ h
  refine ⟨hs.represents, htop, ?_⟩
  intro len hlen
  obtain ⟨p, heap, bs', heq, -, -, hcase⟩ := hs.represents.malloc_cases hlen
  rw [← hend, ← htop, heq]
  rcases hcase with ⟨hnone, rfl, -, -⟩ | ⟨hsome, -⟩
  · rw [hnone]
    rfl
  · rw [hsome]
    rfl

theorem arena_twoObjects :
    ((after Enabled State.exec smallHeap twoObjects).heap.malloc rounds 9).map Prod.fst =
      some 40 := by
  have hruns : (runs Enabled State.exec smallHeap twoObjects).isSome := by
    decide +kernel
  obtain ⟨⟨tr, s⟩, hr⟩ := Option.isSome_iff_exists.mp hruns
  have hafter : after Enabled State.exec smallHeap twoObjects = s := by simp [after, hr]
  have harena : arenaOf smallHeap tr =
      (twoObjects.foldl (arenaStep smallHeap.heap.heapend) ([], smallHeap.heap.heapstart)) := by
    rw [arenaOf, map_snd_of_runs hr]
  rw [hafter, (arena_of_run smallHeap_initial (run_of_runs hr)).2.2 9 (by decide), harena]
  decide +kernel

/-- When everything has been freed again, the free list is one chunk that has all of the memory up
to `__brkval`, or nothing has ever been allocated. -/
theorem free_list_of_run (h₀ : s₀.Initial) (h : Run Step s₀ tr s) (hnil : s.objects = []) :
    s.heap.flp = 0 ∧ s.heap.top = s.heap.heapstart ∨
      s.heap.flp = s.heap.heapstart ∧ s.heap.nx s.heap.flp = 0 ∧
        s.heap.flp + sizeofSize + s.heap.sz s.heap.flp = s.heap.brkval := by
  obtain ⟨hs, -, -, -⟩ := coherent_of_run h₀ h
  generalize (arenaOf s₀ tr).1 = bs at hs
  have hlive : live bs = [] := by
    apply List.filter_eq_nil_iff.mpr
    intro b hb hused
    obtain ⟨o, ho, -⟩ := hs.object b hb hused
    rw [hnil] at ho
    cases ho
  have hchain := hs.represents.chain
  -- an arena without a block in use is empty or one free block
  rcases (hs.represents.tidy.tiles.le).eq_or_lt with heq | hlt
  · left
    refine ⟨?_, heq.symm⟩
    cases bs with
    | nil => exact ptr_eq_none.mp hchain
    | cons b bs =>
      -- a chunk would have a header at least
      obtain ⟨-, hstop⟩ := hs.represents.tidy.tiles.inside (b := b) List.mem_cons_self
      have hlo := (hs.represents.tidy.tiles.inside (b := b) List.mem_cons_self).1
      unfold Block.stop sizeofSize at hstop
      omega
  · right
    have hone := hs.represents.tidy.eq_of_live_nil hlive hlt
    have hbm : (⟨s.heap.heapstart, s.heap.top - s.heap.heapstart - sizeofSize, false⟩ : Block) ∈
        bs := by
      rw [hone]
      exact List.mem_singleton_self _
    have hsize := hs.represents.header _ hbm
    obtain ⟨-, hstop, -, -⟩ := hs.represents.lt hbm
    rw [hone] at hchain
    obtain ⟨hflp, hnx⟩ := hchain
    obtain ⟨hflp, -⟩ := ptr_eq_some.mp hflp
    have htop : s.heap.top = s.heap.brkval := by
      refine if_neg fun hzero => ?_
      rw [top, if_pos hzero] at hlt
      omega
    rw [hflp]
    refine ⟨rfl, ptr_eq_none.mp hnx, ?_⟩
    rw [← htop]
    dsimp only at hsize hstop ⊢
    omega

theorem free_list_twoObjects :
    (after Enabled State.exec smallHeap (twoObjects ++ [.free 32, .free 20])).heap.flp = 16 := by
  have hruns : (runs Enabled State.exec smallHeap (twoObjects ++ [.free 32, .free 20])).isSome := by
    decide +kernel
  obtain ⟨tr, hr⟩ := run_after hruns
  rcases free_list_of_run smallHeap_initial hr (by decide +kernel) with ⟨-, htop⟩ | ⟨hflp, -⟩
  · revert htop
    decide +kernel
  · rw [hflp]
    decide +kernel

/-- What has been freed can be allocated again, as often as one likes. -/
theorem malloc_after_free {o : Object} (h₀ : s₀.Initial) (h : Run Step s₀ tr s)
    (ho : o ∈ s.objects) (hlen : len ≤ o.data.length) :
    ∃ h₁ h₂ p, s.heap.free rounds o.addr = some h₁ ∧ h₁.malloc rounds len = some (p, h₂) ∧
      p ≠ 0 := by
  obtain ⟨hs, -, -, -⟩ := coherent_of_run h₀ h
  obtain ⟨b, hb, hused, haddr, hsize⟩ := hs.block o ho
  obtain ⟨-, hstop, hleast, htop⟩ := hs.represents.lt hb
  obtain ⟨c, hc, hfree, hle⟩ := exists_free_release sizeofSize hb
  obtain ⟨xs, ys, heq⟩ := List.append_of_mem hb
  rw [heq] at hs hc
  obtain ⟨h₁, hcall, hrep, -, -⟩ := hs.represents.free hused hs.represents.length_lt
  obtain ⟨p, h₂, bs', hmalloc, -, -, hcase⟩ := hrep.malloc_cases (show len < 2 ^ 32 by omega)
  refine ⟨h₁, h₂, p, haddr ▸ hcall, hmalloc, ?_⟩
  rcases hcase with ⟨hnone, -⟩ | ⟨-, hpos⟩
  -- the block that has been given back is in a free one, which is large enough
  · have hsmall := (alloc_eq_none.mp hnone).1 c hc hfree
    omega
  · exact hpos.ne'

theorem malloc_after_free_twoObjects :
    ∃ h₁ h₂ p,
      (after Enabled State.exec smallHeap twoObjects).heap.free rounds 32 = some h₁ ∧
        h₁.malloc rounds 2 = some (p, h₂) ∧ p ≠ 0 := by
  have hruns : (runs Enabled State.exec smallHeap twoObjects).isSome := by
    decide +kernel
  obtain ⟨tr, hr⟩ := run_after hruns
  exact malloc_after_free (o := ⟨32, [some 9, none, none]⟩) smallHeap_initial hr (by decide +kernel)
    (by decide)

end State

end GeekOS.Memory.Heap
