import GeekOS.Lists.Operations

/-!
# What is on the intrusive lists

The functions of `list.h` keep every list of a pool linked in both directions, and do to the
sequences of nodes what `Op.apply` says. The links of a node that is on no list may be anything.

* `Separate`: no node is on two lists, or on one list twice; `Separate.apply`: a call that is
  allowed keeps this;
* `Represents`: the pool has these sequences of nodes;
* `Effect`: what a call does to the lists that it names, and that it leaves the others alone;
  `effect_append` and the like: the calls one by one;
* `Represents.reads`, `Represents.neighbours`: what the functions return that only read;
* `append_eq`, `removeFirst_eq`: these two are the operations of `LinkedList`;
* `wellFormed_of_run`: any calls one after the other.
-/

namespace GeekOS.Lists

open LinkedList Result

variable {L N : Type} [DecidableEq L] [DecidableEq N]

/-- No node is on two lists, or on one list twice. -/
structure Separate (c : L → List N) : Prop where
  nodup : ∀ l, (c l).Nodup
  disjoint : ∀ l m n, n ∈ c l → n ∈ c m → l = m

/-- The nodes of each list, which is linked through them in both directions. -/
structure Represents (s : Pool L N) (c : L → List N) : Prop where
  separate : Separate c
  ends : ∀ l, s.list l = Head.of (c l)
  links : ∀ l, Segment s.link none (c l) none

/-- The list is linked in both directions: its head and its tail are null or its ends, no link leads
out of it, and the links from one node to another and back belong together. -/
structure WellFormed (list : Head N) (link : N → Link N) (nodes : List N) : Prop where
  ends : list = Head.of nodes
  linked : IsDoublyLinked list link nodes
  first : ∀ a ∈ nodes.head?, (link a).prev = none
  last : ∀ a ∈ nodes.getLast?, (link a).next = none
  inverse : ∀ a ∈ nodes, ∀ b, (link a).next = some b ↔ b ∈ nodes ∧ (link b).prev = some a

/-- What a call has done: the lists that it names have these nodes now, and it has stored neither
into other lists nor into nodes that are not named and on none of its lists. -/
structure Effect (op : Op L N) (s : Pool L N) (c : L → List N) (s' : Pool L N) (c' : L → List N) :
    Prop where
  ends : ∀ l, op.NamesList l → s'.list l = Head.of (c' l)
  links : ∀ l, op.NamesList l → Segment s'.link none (c' l) none
  lists : ∀ l, ¬op.NamesList l → s'.list l = s.list l
  nodes : ∀ n, ¬op.NamesNode n → (∀ l, op.NamesList l → n ∉ c l) → s'.link n = s.link n

variable {s s' : Pool L N} {c c' : L → List N} {op : Op L N} {l m : L} {node n : N}
  {nodes : List N} {result : Option N}

/-! ## The sequences -/

omit [DecidableEq N] in
/-- One list gets other nodes: those that it had, and some that are on no list. -/
theorem Separate.update (h : Separate c) (hnodup : nodes.Nodup)
    (hnodes : ∀ n ∈ nodes, n ∈ c l ∨ ∀ m, n ∉ c m) : Separate (Function.update c l nodes) := by
  -- a node of the list is on no other one
  have hother : ∀ m n, m ≠ l → n ∈ nodes → n ∉ c m := by
    intro m n hml hn hm
    rcases hnodes n hn with hl | hnone
    · exact hml (h.disjoint m l n hm hl)
    · exact hnone m hm
  refine ⟨fun k => ?_, fun k m n hk hm => ?_⟩
  · by_cases hkl : k = l
    · subst hkl
      rwa [Function.update_self]
    · rw [Function.update_of_ne hkl]
      exact h.nodup k
  · by_cases hkl : k = l
    · subst hkl
      rw [Function.update_self] at hk
      by_contra hkm
      rw [Function.update_of_ne (Ne.symm hkm)] at hm
      exact hother m n (Ne.symm hkm) hk hm
    · rw [Function.update_of_ne hkl] at hk
      by_cases hml : m = l
      · subst hml
        rw [Function.update_self] at hm
        exact absurd hk (hother k n hkl hm)
      · rw [Function.update_of_ne hml] at hm
        exact h.disjoint k m n hk hm

omit [DecidableEq L] [DecidableEq N] in
/-- A node that is named is on no list that is not. -/
theorem namesList_of_mem (h : Separate c) (hop : op.Allowed c) (hn : op.NamesNode n)
    (hmem : n ∈ c m) : op.NamesList m := by
  cases op with
  | append l node => exact absurd (hn ▸ hmem) (hop m)
  | prepend l node => exact absurd (hn ▸ hmem) (hop m)
  | remove l node => exact h.disjoint m l node (hn ▸ hmem) hop
  | appendAll | removeFirst | removeLast | clear => cases hn

/-- A call gives other nodes to the one list that it names, or appends one list to another. -/
theorem apply_cases (h : Separate c) (hop : op.Allowed c)
    (happly : op.apply c = .ok (result, c')) :
    (∃ l nodes, (∀ m, op.NamesList m ↔ m = l) ∧ nodes.Nodup ∧
      (∀ n ∈ nodes, n ∈ c l ∨ op.NamesNode n) ∧ c' = Function.update c l nodes) ∨
    ∃ l k, op = .appendAll l k ∧ l ≠ k ∧
      c' = Function.update (Function.update c l (c l ++ c k)) k [] := by
  cases op with
  | append l node =>
    obtain ⟨-, rfl⟩ := Prod.mk.inj (Except.ok.inj happly)
    refine .inl ⟨l, _, fun m => Iff.rfl, ?_, fun n hn => ?_, rfl⟩
    · rw [List.nodup_append_comm]
      exact List.nodup_cons.mpr ⟨hop l, h.nodup l⟩
    · exact (List.mem_append.mp hn).imp_right List.mem_singleton.mp
  | prepend l node =>
    obtain ⟨-, rfl⟩ := Prod.mk.inj (Except.ok.inj happly)
    refine .inl ⟨l, _, fun m => Iff.rfl, List.nodup_cons.mpr ⟨hop l, h.nodup l⟩, fun n hn => ?_,
      rfl⟩
    exact (List.mem_cons.mp hn).symm
  | appendAll l k =>
    obtain ⟨-, rfl⟩ := Prod.mk.inj (Except.ok.inj happly)
    exact .inr ⟨l, k, rfl, hop, rfl⟩
  | removeFirst l =>
    cases hc : c l with
    | nil => simp [Op.apply, hc] at happly
    | cons first nodes =>
      simp only [Op.apply, hc] at happly
      obtain ⟨-, rfl⟩ := Prod.mk.inj (Except.ok.inj happly)
      have hsub : nodes.Sublist (c l) := hc ▸ List.sublist_cons_self first nodes
      exact .inl ⟨l, nodes, fun m => Iff.rfl, hsub.nodup (h.nodup l),
        fun n hn => .inl (hsub.subset hn), rfl⟩
  | removeLast l =>
    cases hc : (c l).getLast? with
    | none => simp [Op.apply, hc] at happly
    | some last =>
      simp only [Op.apply, hc] at happly
      obtain ⟨-, rfl⟩ := Prod.mk.inj (Except.ok.inj happly)
      have hsub : (c l).dropLast.Sublist (c l) := List.dropLast_sublist _
      exact .inl ⟨l, _, fun m => Iff.rfl, hsub.nodup (h.nodup l),
        fun n hn => .inl (hsub.subset hn), rfl⟩
  | remove l node =>
    obtain ⟨-, rfl⟩ := Prod.mk.inj (Except.ok.inj happly)
    exact .inl ⟨l, _, fun m => Iff.rfl, (h.nodup l).erase node,
      fun n hn => .inl (List.mem_of_mem_erase hn), rfl⟩
  | clear l =>
    obtain ⟨-, rfl⟩ := Prod.mk.inj (Except.ok.inj happly)
    exact .inl ⟨l, [], fun m => Iff.rfl, List.nodup_nil, fun n hn => absurd hn List.not_mem_nil,
      rfl⟩

/-- The calls that are allowed keep the sequences apart. -/
theorem Separate.apply (h : Separate c) (hop : op.Allowed c)
    (happly : op.apply c = .ok (result, c')) : Separate c' := by
  rcases apply_cases h hop happly with
    ⟨l, nodes, hnamed, hnodup, hnodes, rfl⟩ | ⟨l, k, rfl, hne, rfl⟩
  · refine h.update hnodup fun n hn => ?_
    by_cases hmem : n ∈ c l
    · exact .inl hmem
    · -- the node has been inserted
      have hnode := (hnodes n hn).resolve_left hmem
      refine .inr fun m hm => hmem ?_
      rwa [← (hnamed m).mp (namesList_of_mem h hop hnode hm)]
  · have hcleared : Separate (Function.update c k []) :=
      h.update List.nodup_nil fun n hn => absurd hn List.not_mem_nil
    rw [Function.update_comm hne]
    refine hcleared.update ?_ fun n hn => ?_
    · refine List.nodup_append.mpr ⟨h.nodup l, h.nodup k, ?_⟩
      rintro a ha _ hb rfl
      exact hne (h.disjoint l k a ha hb)
    · rw [Function.update_of_ne hne]
      refine (List.mem_append.mp hn).imp_right fun hnk m hm => ?_
      by_cases hmk : m = k
      · rw [hmk, Function.update_self] at hm
        cases hm
      · rw [Function.update_of_ne hmk] at hm
        exact hmk (h.disjoint m k n hm hnk)

/-- The lists that a call does not name keep their nodes. -/
theorem apply_of_not_named (h : Separate c) (hop : op.Allowed c)
    (happly : op.apply c = .ok (result, c')) (hm : ¬op.NamesList m) : c' m = c m := by
  rcases apply_cases h hop happly with ⟨l, nodes, hnamed, -, -, rfl⟩ | ⟨l, k, rfl, -, rfl⟩
  · exact Function.update_of_ne (mt (hnamed m).mpr hm) ..
  · obtain ⟨hml, hmk⟩ := not_or.mp hm
    rw [Function.update_of_ne hmk, Function.update_of_ne hml]

/-- A node on a list that a call names has been named, or was on a list that is. -/
theorem mem_of_apply (h : Separate c) (hop : op.Allowed c)
    (happly : op.apply c = .ok (result, c')) (hm : op.NamesList m) (hmem : n ∈ c' m) :
    op.NamesNode n ∨ ∃ l, op.NamesList l ∧ n ∈ c l := by
  rcases apply_cases h hop happly with ⟨l, nodes, hnamed, -, hnodes, rfl⟩ | ⟨l, k, rfl, hne, rfl⟩
  · obtain rfl := (hnamed m).mp hm
    rw [Function.update_self] at hmem
    exact (hnodes n hmem).symm.imp_right fun hmem => ⟨m, hm, hmem⟩
  · rcases hm with rfl | rfl
    · rw [Function.update_of_ne hne, Function.update_self] at hmem
      rcases List.mem_append.mp hmem with hmem | hmem
      · exact .inr ⟨m, .inl rfl, hmem⟩
      · exact .inr ⟨k, .inr rfl, hmem⟩
    · rw [Function.update_self] at hmem
      cases hmem

/-! ## The calls one by one -/

omit [DecidableEq L] [DecidableEq N] in
/-- What the invariant says of a list with these nodes. -/
theorem Represents.list_eq (h : Represents s c) (hc : c l = nodes) :
    s.list l = Head.of nodes ∧ Segment s.link none nodes none ∧ nodes.Nodup := by
  subst hc
  exact ⟨h.ends l, h.links l, h.separate.nodup l⟩

omit [DecidableEq N] in
/-- A call that names one list. -/
theorem Effect.single (hnamed : ∀ m, op.NamesList m ↔ m = l) (ends : s'.list l = Head.of nodes)
    (links : Segment s'.link none nodes none) (lists : ∀ m ≠ l, s'.list m = s.list m)
    (hnodes : ∀ n, ¬op.NamesNode n → n ∉ c l → s'.link n = s.link n) :
    Effect op s c s' (Function.update c l nodes) := by
  refine ⟨fun m hm => ?_, fun m hm => ?_, fun m hm => ?_, fun n hn hc => ?_⟩
  · obtain rfl := (hnamed m).mp hm
    rwa [Function.update_self]
  · obtain rfl := (hnamed m).mp hm
    rwa [Function.update_self]
  · exact lists m (mt (hnamed m).mpr hm)
  · exact hnodes n hn (hc l ((hnamed l).mpr rfl))

omit [DecidableEq N] in
/-- `append_all` names two. -/
theorem Effect.both {k : L} (hne : l ≠ k) (ends : s'.list l = Head.of nodes)
    (ends' : s'.list k = Head.of []) (links : Segment s'.link none nodes none)
    (lists : ∀ m, m ≠ l → m ≠ k → s'.list m = s.list m)
    (hnodes : ∀ n, n ∉ c l → n ∉ c k → s'.link n = s.link n) :
    Effect (.appendAll l k) s c s' (Function.update (Function.update c l nodes) k []) := by
  refine ⟨fun m hm => ?_, fun m hm => ?_, fun m hm => ?_, fun n _ hc => ?_⟩
  · rcases hm with rfl | rfl
    · rwa [Function.update_of_ne hne, Function.update_self]
    · rwa [Function.update_self]
  · rcases hm with rfl | rfl
    · rwa [Function.update_of_ne hne, Function.update_self]
    · rw [Function.update_self]
      trivial
  · obtain ⟨hml, hmk⟩ := not_or.mp hm
    exact lists m hml hmk
  · exact hnodes n (hc l (.inl rfl)) (hc k (.inr rfl))

/-- The branch that both insertions have for a list without nodes. -/
theorem effect_firstNode (hnamed : ∀ m, op.NamesList m ↔ m = l)
    (hnode : ∀ n, op.NamesNode n ↔ n = node) :
    Effect op s c
      ((((s.setPrev node none).setNext node none).setTail l (some node)).setHead l (some node))
      (Function.update c l [node]) := by
  refine .single hnamed ?_ ?_ (fun m hm => ?_) (fun n hn _ => ?_)
  · rw [Pool.setHead_list_self, Pool.setTail_list_self]
    rfl
  · rw [segment_singleton]
    simp [setNext_self, setPrev_self]
  · rw [Pool.setHead_list_of_ne hm, Pool.setTail_list_of_ne hm]
    rfl
  · have hne : n ≠ node := mt (hnode n).mpr hn
    simp [setNext_of_ne hne, setPrev_of_ne hne]

theorem effect_append (h : Represents s c) (hnode : ∀ l, node ∉ c l) :
    ∃ s', s.append l node = .ok s' ∧
      Effect (.append l node) s c s' (Function.update c l (c l ++ [node])) := by
  have hnotin := hnode l
  rcases List.eq_nil_or_concat' (c l) with hc | ⟨front, tail, hc⟩ <;>
    obtain ⟨hends, hlinks, hnodup⟩ := h.list_eq hc <;> rw [hc] at hnotin
  · have hfirst : (s.list l).first = none := by rw [hends]; rfl
    refine ⟨_, if_pos hfirst, ?_⟩
    rw [hc]
    exact effect_firstNode (fun m => Iff.rfl) fun n => Iff.rfl
  · -- the last node is linked to the new one
    have hfirst : (s.list l).first ≠ none := by simp [hends, Head.of]
    have hlast : (s.list l).last = some tail := by simp [hends, Head.of]
    have hne : node ≠ tail := by rintro rfl; simp at hnotin
    rw [← List.concat_eq_append, List.nodup_concat] at hnodup
    let s₁ := ((s.setPrev node none).setNext node none).setPrev node (some tail)
    refine ⟨(s₁.setNext tail (some node)).setTail l (some node), ?_,
      .single (fun m => Iff.rfl) ?_ ?_ (fun m hm => ?_) (fun n hn hout => ?_)⟩
    · simp [s₁, Pool.append, hfirst, hlast, deref]
    · rw [Pool.setTail_list_self, hc]
      simp [s₁, hends, Head.of]
    · rw [hc, segment_append]
      have hold : Segment s₁.link none (front ++ [tail]) none :=
        ((hlinks.setPrev_of_not_mem hnotin).setNext_of_not_mem hnotin).setPrev_of_not_mem hnotin
      refine ⟨hold.setNext hnodup.1, segment_singleton.mpr ?_⟩
      simp [s₁, setNext_of_ne hne, setNext_self, setPrev_self]
    · rw [Pool.setTail_list_of_ne hm]
      rfl
    · have htail' : n ≠ tail := by rintro rfl; simp [hc] at hout
      simp [s₁, setNext_of_ne htail', setNext_of_ne hn, setPrev_of_ne hn]

theorem effect_prepend (h : Represents s c) (hnode : ∀ l, node ∉ c l) :
    ∃ s', s.prepend l node = .ok s' ∧
      Effect (.prepend l node) s c s' (Function.update c l (node :: c l)) := by
  have hnotin := hnode l
  rcases hc : c l with _ | ⟨head, back⟩ <;>
    obtain ⟨hends, hlinks, hnodup⟩ := h.list_eq hc <;> rw [hc] at hnotin
  · have hfirst : (s.list l).first = none := by rw [hends]; rfl
    exact ⟨_, if_pos hfirst, effect_firstNode (fun m => Iff.rfl) fun n => Iff.rfl⟩
  · -- the new node is linked to the first one
    have hfirst : (s.list l).first = some head := by rw [hends]; rfl
    have hne : node ≠ head := by rintro rfl; simp at hnotin
    have hhead : head ∉ back := (List.nodup_cons.mp hnodup).1
    let s₁ := ((s.setPrev node none).setNext node none).setNext node (some head)
    refine ⟨(s₁.setPrev head (some node)).setHead l (some node), ?_,
      .single (fun m => Iff.rfl) ?_ ?_ (fun m hm => ?_) (fun n hn hout => ?_)⟩
    · simp [s₁, Pool.prepend, hfirst, deref]
    · rw [Pool.setHead_list_self]
      simp [s₁, hends, Head.of, List.getLast?_cons_cons]
    · have hold : Segment s₁.link none (head :: back) none :=
        ((hlinks.setPrev_of_not_mem hnotin).setNext_of_not_mem hnotin).setNext_of_not_mem hnotin
      refine ⟨?_, hold.setPrev hhead⟩
      simp [s₁, setPrev_of_ne hne, setNext_self, setPrev_self]
    · rw [Pool.setHead_list_of_ne hm]
      rfl
    · have hhead' : n ≠ head := by rintro rfl; simp [hc] at hout
      simp [s₁, setPrev_of_ne hhead', setNext_of_ne hn, setPrev_of_ne hn]

omit [DecidableEq N] in
/-- A list is emptied, by `clear` or as its only node is removed. -/
theorem effect_clear (hnamed : ∀ m, op.NamesList m ↔ m = l) :
    Effect op s c (s.clear l) (Function.update c l []) :=
  .single hnamed Pool.clear_list_self trivial (fun _ hm => Pool.clear_list_of_ne hm)
    fun _ _ _ => rfl

theorem effect_removeFirst (h : Represents s c) (hc : c l = node :: nodes) :
    ∃ s', s.removeFirst l = .ok (some node, s') ∧
      Effect (.removeFirst l) s c s' (Function.update c l nodes) := by
  obtain ⟨hends, hlinks, hnodup⟩ := h.list_eq hc
  have hfirst : (s.list l).first = some node := by rw [hends]; rfl
  have hreq : require ((s.list l).first ≠ none) Fault.emptyList = .ok () :=
    require_eq_ok.mpr (by simp [hfirst])
  cases nodes with
  | nil =>
    have hlast : (s.list l).last = some node := by rw [hends]; rfl
    refine ⟨s.clear l, ?_, effect_clear fun m => Iff.rfl⟩
    rw [Pool.removeFirst, hreq, ok_bind, if_pos (by rw [hfirst, hlast]), hfirst]
    rfl
  | cons head back =>
    have hdiff : (s.list l).first ≠ (s.list l).last := by
      rw [hends]
      exact Head.first_ne_last hnodup (by simp)
    have hnext : (s.link node).next = some head := by rw [hlinks.1]; rfl
    refine ⟨(s.setHead l (some head)).setPrev head none, ?_,
      .single (fun m => Iff.rfl) ?_ ?_ (fun m hm => ?_) (fun n _ hout => ?_)⟩
    · rw [Pool.removeFirst, hreq, ok_bind, if_neg hdiff]
      simp [hfirst, deref, hnext]
    · rw [Pool.setPrev_list, Pool.setHead_list_self, hends]
      simp [Head.of, List.getLast?_cons_cons]
    · exact hlinks.2.setPrev (List.nodup_cons.mp (List.nodup_cons.mp hnodup).2).1
    · rw [Pool.setPrev_list, Pool.setHead_list_of_ne hm]
    · have hhead : n ≠ head := by rintro rfl; simp [hc] at hout
      rw [Pool.setPrev_link, setPrev_of_ne hhead, Pool.setHead_link]

theorem effect_removeLast (h : Represents s c) (hc : c l = nodes ++ [node]) :
    ∃ s', s.removeLast l = .ok (some node, s') ∧
      Effect (.removeLast l) s c s' (Function.update c l nodes) := by
  obtain ⟨hends, hlinks, hnodup⟩ := h.list_eq hc
  have hlast : (s.list l).last = some node := by simp [hends, Head.of]
  have hreq : require ((s.list l).first ≠ none) Fault.emptyList = .ok () :=
    require_eq_ok.mpr (by simp [hends, Head.of])
  rcases List.eq_nil_or_concat' nodes with rfl | ⟨front, tail, rfl⟩
  · have hfirst : (s.list l).first = some node := by rw [hends]; rfl
    refine ⟨s.clear l, ?_, effect_clear fun m => Iff.rfl⟩
    rw [Pool.removeLast, hreq, ok_bind, if_pos (by rw [hfirst, hlast]), hfirst]
    rfl
  · have hdiff : (s.list l).first ≠ (s.list l).last := by
      rw [hends]
      exact Head.first_ne_last hnodup (by simp)
    rw [← List.concat_eq_append, List.nodup_concat, ← List.concat_eq_append] at hnodup
    obtain ⟨hfront, hlastLink⟩ := segment_append.mp hlinks
    have hprev : (s.link node).prev = some tail := by
      rw [segment_singleton.mp hlastLink]
      simp
    refine ⟨(s.setTail l (some tail)).setNext tail none, ?_,
      .single (fun m => Iff.rfl) ?_ ?_ (fun m hm => ?_) (fun n _ hout => ?_)⟩
    · rw [Pool.removeLast, hreq, ok_bind, if_neg hdiff]
      simp [hlast, deref, hprev]
    · rw [Pool.setNext_list, Pool.setTail_list_self, hends]
      rw [Head.of, Head.of, List.getLast?_concat, List.getLast?_concat]
      cases front <;> rfl
    · exact hfront.setNext ((List.nodup_concat front tail).mp hnodup.2).1
    · rw [Pool.setNext_list, Pool.setTail_list_of_ne hm]
    · have htail : n ≠ tail := by rintro rfl; simp [hc] at hout
      rw [Pool.setNext_link, setNext_of_ne htail, Pool.setTail_link]

/-- The link from in front of the node now leads to what is behind it. -/
theorem unlinkNext_effect {l₁ : List N} {after : Option N}
    (hlink : s.link node = ⟨l₁.getLast?, after⟩) (hlinks : Segment s.link none l₁ (some node))
    (hnodup : l₁.Nodup) :
    Segment (s.unlinkNext l node).link none l₁ after ∧
      ((s.unlinkNext l node).list l).first = (if l₁ = [] then after else (s.list l).first) ∧
      ((s.unlinkNext l node).list l).last = (s.list l).last ∧
      (∀ m ≠ l, (s.unlinkNext l node).list m = s.list m) ∧
      ∀ n ∉ l₁, (s.unlinkNext l node).link n = s.link n := by
  rcases List.eq_nil_or_concat' l₁ with rfl | ⟨front, before, rfl⟩
  · have hprev : (s.link node).prev = none := by rw [hlink]; rfl
    have heq : s.unlinkNext l node = s.setHead l after := by
      rw [Pool.unlinkNext, hprev, hlink]
    rw [heq, if_pos rfl]
    refine ⟨trivial, ?_, ?_, fun m hm => Pool.setHead_list_of_ne hm, fun n _ => rfl⟩
    · rw [Pool.setHead_list_self]
    · rw [Pool.setHead_list_self]
  · have hprev : (s.link node).prev = some before := by rw [hlink, List.getLast?_concat]
    have heq : s.unlinkNext l node = s.setNext before after := by
      rw [Pool.unlinkNext, hprev, hlink]
    rw [← List.concat_eq_append, List.nodup_concat] at hnodup
    rw [heq, if_neg (by simp)]
    refine ⟨hlinks.setNext hnodup.1, rfl, rfl, fun m _ => rfl, fun n hn => setNext_of_ne ?_⟩
    rintro rfl
    simp at hn

/-- The link from behind it now leads to what is in front of it. -/
theorem unlinkPrev_effect {l₂ : List N} {before : Option N}
    (hlink : s.link node = ⟨before, l₂.head?⟩) (hlinks : Segment s.link (some node) l₂ none)
    (hnodup : l₂.Nodup) :
    Segment (s.unlinkPrev l node).link before l₂ none ∧
      ((s.unlinkPrev l node).list l).last = (if l₂ = [] then before else (s.list l).last) ∧
      ((s.unlinkPrev l node).list l).first = (s.list l).first ∧
      (∀ m ≠ l, (s.unlinkPrev l node).list m = s.list m) ∧
      ∀ n ∉ l₂, (s.unlinkPrev l node).link n = s.link n := by
  cases l₂ with
  | nil =>
    have hnext : (s.link node).next = none := by rw [hlink]; rfl
    have heq : s.unlinkPrev l node = s.setTail l before := by
      rw [Pool.unlinkPrev, hnext, hlink]
    rw [heq, if_pos rfl]
    refine ⟨trivial, ?_, ?_, fun m hm => Pool.setTail_list_of_ne hm, fun n _ => rfl⟩
    · rw [Pool.setTail_list_self]
    · rw [Pool.setTail_list_self]
  | cons after back =>
    have hnext : (s.link node).next = some after := by rw [hlink]; rfl
    have heq : s.unlinkPrev l node = s.setPrev after before := by
      rw [Pool.unlinkPrev, hnext, hlink]
    rw [heq, if_neg (by simp)]
    refine ⟨hlinks.setPrev (List.nodup_cons.mp hnodup).1, rfl, rfl, fun m _ => rfl,
      fun n hn => setPrev_of_ne ?_⟩
    rintro rfl
    simp at hn

theorem effect_remove (h : Represents s c) (hnode : node ∈ c l) :
    Effect (.remove l node) s c (s.remove l node) (Function.update c l ((c l).erase node)) := by
  obtain ⟨l₁, l₂, hc⟩ := List.append_of_mem hnode
  obtain ⟨hends, hlinks, hnodup⟩ := h.list_eq hc
  have hlink := hlinks.link_eq
  obtain ⟨hfront, hback⟩ := segment_append.mp hlinks
  obtain ⟨hnodup₁, hnodup₂, hdisjoint⟩ := List.nodup_append.mp hnodup
  obtain ⟨hnode₂, hnodup₂⟩ := List.nodup_cons.mp hnodup₂
  have hnode₁ : node ∉ l₁ := fun hmem => hdisjoint node hmem node List.mem_cons_self rfl
  have herase : (c l).erase node = l₁ ++ l₂ := by
    rw [hc, List.erase_append_right _ hnode₁, List.erase_cons_head]
  -- first what leads to the node from in front of it, then what does from behind it
  obtain ⟨hseg₁, hfirst₁, hlast₁, hlists₁, hnodes₁⟩ :=
    unlinkNext_effect (l := l) hlink hfront hnodup₁
  have hlink' : (s.unlinkNext l node).link node = ⟨l₁.getLast?, l₂.head?⟩ := by
    rw [hnodes₁ node hnode₁, hlink]
  have hback' : Segment (s.unlinkNext l node).link (some node) l₂ none :=
    hback.2.congr fun n hn =>
      hnodes₁ n fun hmem => hdisjoint n hmem n (List.mem_cons_of_mem _ hn) rfl
  obtain ⟨hseg₂, hlast₂, hfirst₂, hlists₂, hnodes₂⟩ :=
    unlinkPrev_effect (l := l) hlink' hback' hnodup₂
  rw [herase]
  refine .single (fun m => Iff.rfl) ?_ ?_ (fun m hm => ?_) (fun n hn hout => ?_)
  · have hfirst : ((s.remove l node).list l).first = (l₁ ++ l₂).head? := by
      rw [Pool.remove, hfirst₂, hfirst₁, hends]
      cases l₁ <;> rfl
    have hlast : ((s.remove l node).list l).last = (l₁ ++ l₂).getLast? := by
      rw [Pool.remove, hlast₂, hlast₁, hends]
      cases l₂ with
      | nil => rw [if_pos rfl, List.append_nil]
      | cons after back =>
        rw [if_neg (List.cons_ne_nil _ _), Head.of, List.getLast?_append_cons,
          List.getLast?_append_cons, List.getLast?_cons_cons]
    exact congrArg₂ Head.mk hfirst hlast
  · rw [Pool.remove, segment_append, Option.or_none, Option.or_none]
    refine ⟨hseg₁.congr fun n hn => hnodes₂ n fun hmem => ?_, hseg₂⟩
    exact hdisjoint n hn n (List.mem_cons_of_mem _ hmem) rfl
  · rw [Pool.remove, hlists₂ m hm, hlists₁ m hm]
  · rw [hc, List.mem_append, List.mem_cons] at hout
    rw [Pool.remove, hnodes₂ n (by tauto), hnodes₁ n (by tauto)]

theorem effect_appendAll {k : L} (h : Represents s c) (hne : l ≠ k) :
    ∃ s', s.appendAll l k = .ok s' ∧ Effect (.appendAll l k) s c s'
      (Function.update (Function.update c l (c l ++ c k)) k []) := by
  obtain ⟨hends, hlinks, -⟩ := h.list_eq (l := l) rfl
  rcases hk : c k with _ | ⟨head, back⟩ <;> obtain ⟨hendsk, hlinksk, hnodupk⟩ := h.list_eq hk
  · -- nothing is appended
    refine ⟨s, if_pos (by rw [hendsk]; rfl), .both hne ?_ hendsk ?_ (fun _ _ _ => rfl)
      fun _ _ _ => rfl⟩
    · rw [hends, List.append_nil]
    · rwa [List.append_nil]
  · have hfirstk : (s.list k).first = some head := by rw [hendsk]; rfl
    have hlastk : (s.list k).last = (head :: back).getLast? := by rw [hendsk]; rfl
    have hnek : k ≠ l := Ne.symm hne
    rcases List.eq_nil_or_concat' (c l) with hc | ⟨front, tail, hc⟩ <;> rw [hc] at hends hlinks
    · -- the nodes are taken over as they are
      have hfirst : (s.list l).first = none := by rw [hends]; rfl
      let s₁ := (s.setHead l (some head)).setTail l (s.list k).last
      refine ⟨s₁.clear k, ?_, .both hne ?_ Pool.clear_list_self ?_ (fun m hml hmk => ?_)
        fun _ _ _ => rfl⟩
      · simp [s₁, Pool.appendAll, hfirstk, hfirst, Pool.setHead_list_of_ne hnek]
      · rw [Pool.clear_list_of_ne hne, Pool.setTail_list_self, Pool.setHead_list_self, hlastk, hc]
        rfl
      · rwa [hc, List.nil_append]
      · rw [Pool.clear_list_of_ne hmk, Pool.setTail_list_of_ne hml, Pool.setHead_list_of_ne hml]
    · -- the last node of the one list and the first one of the other are linked
      have hfirst : (s.list l).first ≠ none := by simp [hends, Head.of]
      have hlast : (s.list l).last = some tail := by simp [hends, Head.of]
      have hnodup := h.separate.nodup l
      rw [hc, ← List.concat_eq_append, List.nodup_concat] at hnodup
      have htail : tail ∉ head :: back := by
        rw [← hk]
        exact fun hmem => hne (h.separate.disjoint l k tail (by simp [hc]) hmem)
      have hhead : head ∉ front ++ [tail] := by
        rw [← hc]
        exact fun hmem => hne (h.separate.disjoint l k head hmem (by simp [hk]))
      let s₁ := (s.setNext tail (some head)).setPrev head (some tail)
      refine ⟨(s₁.setTail l (s.list k).last).clear k, ?_, .both hne ?_ Pool.clear_list_self ?_
        (fun m hml hmk => ?_) (fun n hnl hnk => ?_)⟩
      · simp [s₁, Pool.appendAll, hfirstk, hfirst, hlast, deref]
      · have hends₁ : s₁.list l = Head.of (front ++ [tail]) := hends
        have hlast' : (front ++ [tail] ++ head :: back).getLast? = (head :: back).getLast? :=
          List.getLast?_append_cons ..
        rw [Pool.clear_list_of_ne hne, Pool.setTail_list_self, hlastk, hends₁, hc, ← hlast']
        cases front <;> rfl
      · rw [hc, segment_append, List.getLast?_concat]
        refine ⟨(hlinks.setNext hnodup.1).setPrev_of_not_mem hhead, ?_⟩
        exact (hlinksk.setNext_of_not_mem htail).setPrev (List.nodup_cons.mp hnodupk).1
      · rw [Pool.clear_list_of_ne hmk, Pool.setTail_list_of_ne hml]
        rfl
      · have htail' : n ≠ tail := by rintro rfl; simp [hc] at hnl
        have hhead' : n ≠ head := by rintro rfl; simp [hk] at hnk
        simp [s₁, setPrev_of_ne hhead', setNext_of_ne htail']

/-! ## Runs -/

/-- A call whose effect is that on the sequences keeps the invariant. -/
theorem Represents.of_effect (h : Represents s c) (hop : op.Allowed c)
    (happly : op.apply c = .ok (result, c')) (heff : Effect op s c s' c') : Represents s' c' := by
  refine ⟨h.separate.apply hop happly, fun m => ?_, fun m => ?_⟩ <;> by_cases hm : op.NamesList m
  · exact heff.ends m hm
  · rw [heff.lists m hm, apply_of_not_named h.separate hop happly hm, h.ends m]
  · exact heff.links m hm
  · -- the call stores into no node of another list
    rw [apply_of_not_named h.separate hop happly hm]
    refine (h.links m).congr fun n hn => heff.nodes n (fun hnode => ?_) fun l hl hnl => ?_
    · exact hm (namesList_of_mem h.separate hop hnode hn)
    · exact hm (h.separate.disjoint m l n hn hnl ▸ hl)

/-- A call that is allowed does to the pool what it does to the sequences, and fails only where
these say that a node is removed from an empty list. -/
theorem exec_effect (h : Represents s c) (hop : op.Allowed c) :
    (∃ result c' s', op.apply c = .ok (result, c') ∧ op.exec s = .ok (result, s') ∧
      Effect op s c s' c') ∨
    (op.apply c = .error .emptyList ∧ op.exec s = .error .emptyList) := by
  cases op with
  | append l node =>
    obtain ⟨s', hexec, heff⟩ := effect_append (l := l) h hop
    exact .inl ⟨none, _, s', rfl, by rw [Op.exec, hexec]; rfl, heff⟩
  | prepend l node =>
    obtain ⟨s', hexec, heff⟩ := effect_prepend (l := l) h hop
    exact .inl ⟨none, _, s', rfl, by rw [Op.exec, hexec]; rfl, heff⟩
  | appendAll l k =>
    obtain ⟨s', hexec, heff⟩ := effect_appendAll h hop
    exact .inl ⟨none, _, s', rfl, by rw [Op.exec, hexec]; rfl, heff⟩
  | removeFirst l =>
    cases hc : c l with
    | nil =>
      have hreq : require ((s.list l).first ≠ none) Fault.emptyList = .error .emptyList :=
        require_eq_error.mpr ⟨by simp [h.ends l, hc, Head.of], rfl⟩
      refine .inr ⟨by rw [Op.apply, hc], ?_⟩
      rw [Op.exec, Pool.removeFirst, hreq, error_bind]
    | cons node nodes =>
      obtain ⟨s', hexec, heff⟩ := effect_removeFirst h hc
      exact .inl ⟨some node, _, s', by rw [Op.apply, hc], hexec, heff⟩
  | removeLast l =>
    rcases List.eq_nil_or_concat' (c l) with hc | ⟨nodes, node, hc⟩
    · have hreq : require ((s.list l).first ≠ none) Fault.emptyList = .error .emptyList :=
        require_eq_error.mpr ⟨by simp [h.ends l, hc, Head.of], rfl⟩
      refine .inr ⟨by rw [Op.apply, hc]; rfl, ?_⟩
      rw [Op.exec, Pool.removeLast, hreq, error_bind]
    · obtain ⟨s', hexec, heff⟩ := effect_removeLast h hc
      refine .inl ⟨some node, _, s', ?_, hexec, heff⟩
      rw [Op.apply, hc, List.getLast?_concat, List.dropLast_concat]
  | remove l node => exact .inl ⟨none, _, _, rfl, rfl, effect_remove h hop⟩
  | clear l => exact .inl ⟨none, _, _, rfl, rfl, effect_clear fun m => Iff.rfl⟩

omit [DecidableEq L] [DecidableEq N] in
/-- Lists without nodes, whatever links the nodes have. -/
theorem represents_empty (link : N → Link N) :
    Represents (⟨fun _ => Head.empty, link⟩ : Pool L N) fun _ => [] :=
  ⟨⟨fun _ => List.nodup_nil, fun _ _ _ h => by cases h⟩, fun _ => rfl, fun _ => trivial⟩

omit [DecidableEq L] [DecidableEq N] in
theorem Represents.wellFormed (h : Represents s c) (l : L) :
    WellFormed (s.list l) s.link (c l) := by
  have hlinks := h.links l
  refine ⟨h.ends l, ?_, fun a ha => ?_, fun a ha => ?_, fun a ha b => hlinks.next_iff_prev ha⟩
  · rw [h.ends l]
    exact hlinks.isDoublyLinked (h.separate.nodup l)
  · obtain ⟨back, hc⟩ := List.head?_eq_some_iff.mp ha
    rw [hc, ← List.nil_append (a :: back)] at hlinks
    rw [hlinks.link_eq]
    rfl
  · obtain ⟨front, hc⟩ := List.getLast?_eq_some_iff.mp ha
    rw [hc] at hlinks
    rw [hlinks.link_eq]
    rfl

omit [DecidableEq L] [DecidableEq N] in
/-- The functions that only read from a list. -/
theorem Represents.reads (h : Represents s c) (l : L) :
    s.isEmpty l = (c l).isEmpty ∧ s.getFirst l = (c l).head? ∧ s.getLast l = (c l).getLast? := by
  rw [Pool.isEmpty, Pool.getFirst, Pool.getLast, h.ends l]
  cases c l <;> exact ⟨rfl, rfl, rfl⟩

omit [DecidableEq L] [DecidableEq N] in
/-- Those that read from a node of it. -/
theorem Represents.neighbours (h : Represents s c) {l₁ l₂ : List N} (hc : c l = l₁ ++ n :: l₂) :
    s.next n = l₂.head? ∧ s.prev n = l₁.getLast? := by
  have hlinks := h.links l
  rw [hc] at hlinks
  rw [Pool.next, Pool.prev, hlinks.link_eq]
  exact ⟨rfl, rfl⟩

/-- On a list whose ends are both null or neither of them, `append` is that of `LinkedList`. -/
theorem append_eq (hends : (s.list l).first = none ↔ (s.list l).last = none) :
    s.append l node = .ok
      { list := Function.update s.list l (LinkedList.append (s.list l) s.link node).1
        link := (LinkedList.append (s.list l) s.link node).2 } := by
  have hclear : setNext (setPrev s.link node none) node none =
      Function.update s.link node ⟨none, none⟩ := by
    rw [setNext, setPrev, Function.update_self, Function.update_idem]
  rw [Pool.append, LinkedList.append]
  cases hfirst : (s.list l).first with
  | none =>
    rw [if_pos (by rw [Pool.setNext_list, Pool.setPrev_list, hfirst]), Pool.setHead_setTail,
      Pool.setNext_link, Pool.setPrev_link, hclear]
    rfl
  | some first =>
    cases hlast : (s.list l).last with
    | none => rw [hends.mpr hlast] at hfirst; cases hfirst
    | some last =>
      -- the two stores into the new node, and the one in which `LinkedList` has both
      have hlinked : ∀ link : N → Link N,
          setNext (setPrev (Function.update link node ⟨none, none⟩) node (some last)) last
              (some node) =
            setNext (Function.update link node ⟨some last, none⟩) last (some node) := by
        intro link
        rw [setPrev, Function.update_self, Function.update_idem]
      simp [hfirst, hlast, deref, Pool.setTail, Pool.setNext, Pool.setPrev, hclear, hlinked]
      rfl

/-- Where `removeFirst` of `LinkedList` succeeds, this one does the same. -/
theorem removeFirst_eq {head : Head N} {link : N → Link N}
    (h : LinkedList.removeFirst (s.list l) s.link = some (node, head, link)) :
    s.removeFirst l = .ok (some node, { list := Function.update s.list l head, link }) := by
  rw [LinkedList.removeFirst] at h
  cases hfirst : (s.list l).first with
  | none => simp [hfirst] at h
  | some first =>
    have hreq : require ((s.list l).first ≠ none) Fault.emptyList = .ok () :=
      require_eq_ok.mpr (by simp [hfirst])
    simp only [hfirst] at h
    split at h
    next hsame =>
      -- the only node
      cases h
      rw [Pool.removeFirst, hreq, ok_bind, if_pos (by rw [hfirst, hsame]), Pool.setHead_setTail,
        hfirst]
      rfl
    next hdiff =>
      cases hnext : (s.link first).next with
      | none => simp [hnext] at h
      | some next =>
        simp only [hnext] at h
        cases h
        rw [Pool.removeFirst, hreq, ok_bind, if_neg (by rwa [hfirst])]
        simp [hfirst, deref, hnext, Pool.setHead, Pool.setPrev]
        rfl

/-- After any calls, each of which is allowed when it comes, the lists have the nodes that the
sequences have, unless a call has come to remove a node from an empty list, which fails on both
sides. The lists and nodes that no call has named are as they were. -/
theorem represents_of_run {ops : List (Op L N)} (h : Represents s c)
    (hops : Op.AllAllowed ops c) :
    (∃ results c' s', Op.run Op.apply ops c = .ok (results, c') ∧
      Op.run Op.exec ops s = .ok (results, s') ∧ Represents s' c' ∧
      (∀ m, (∀ op ∈ ops, ¬op.NamesList m) → s'.list m = s.list m ∧ c' m = c m) ∧
      ∀ n, (∀ op ∈ ops, ¬op.NamesNode n ∧ ∀ l, op.NamesList l → n ∉ c l) →
        s'.link n = s.link n) ∨
    (Op.run Op.apply ops c = .error .emptyList ∧ Op.run Op.exec ops s = .error .emptyList) := by
  -- on the calls; what has been proved of the first one is what the rest needs
  induction ops generalizing s c with
  | nil => exact .inl ⟨[], c, s, rfl, rfl, h, fun _ _ => ⟨rfl, rfl⟩, fun _ _ => rfl⟩
  | cons op ops ih =>
    obtain ⟨hop, hops⟩ := hops
    rcases exec_effect h hop with ⟨result, c₁, s₁, happly, hexec, heff⟩ | ⟨happly, hexec⟩
    · have hsep := h.separate
      rw [Op.run, Op.run, happly, hexec, ok_bind, ok_bind]
      dsimp only
      rcases ih (h.of_effect hop happly heff) (hops result c₁ happly) with
        ⟨results, c', s', hrunc, hruns, h', hlists, hnodes⟩ | ⟨hrunc, hruns⟩
      · refine .inl ⟨result :: results, c', s', by rw [hrunc]; rfl, by rw [hruns]; rfl, h',
          fun m hm => ?_, fun n hn => ?_⟩
        · obtain ⟨hm₁, hm⟩ := List.forall_mem_cons.mp hm
          obtain ⟨hlist, hcontents⟩ := hlists m hm
          exact ⟨hlist.trans (heff.lists m hm₁),
            hcontents.trans (apply_of_not_named hsep hop happly hm₁)⟩
        · obtain ⟨hn₁, hn⟩ := List.forall_mem_cons.mp hn
          refine (hnodes n fun op' hop' => ⟨(hn op' hop').1, fun l hl hmem => ?_⟩).trans
            (heff.nodes n hn₁.1 hn₁.2)
          -- the node has not come to be on another list
          by_cases hl₁ : op.NamesList l
          · rcases mem_of_apply hsep hop happly hl₁ hmem with hname | ⟨k, hk, hmem⟩
            · exact hn₁.1 hname
            · exact hn₁.2 k hk hmem
          · rw [apply_of_not_named hsep hop happly hl₁] at hmem
            exact (hn op' hop').2 l hl hmem
      · exact .inr ⟨by rw [hrunc]; rfl, by rw [hruns]; rfl⟩
    · -- a node is removed from an empty list, and the assertion fails
      exact .inr ⟨by rw [Op.run, happly]; rfl, by rw [Op.run, hexec]; rfl⟩

/-- From any pool of lists, and with any links in the nodes that are on none of them, the functions
do to the lists what the operations on sequences do, and leave every list well-formed. -/
theorem wellFormed_of_run {ops : List (Op L N)} (h : Represents s c)
    (hops : Op.AllAllowed ops c) :
    (∃ results c' s', Op.run Op.apply ops c = .ok (results, c') ∧
      Op.run Op.exec ops s = .ok (results, s') ∧
      (∀ l, WellFormed (s'.list l) s'.link (c' l)) ∧
      (∀ m, (∀ op ∈ ops, ¬op.NamesList m) → s'.list m = s.list m ∧ c' m = c m) ∧
      ∀ n, (∀ op ∈ ops, ¬op.NamesNode n ∧ ∀ l, op.NamesList l → n ∉ c l) →
        s'.link n = s.link n) ∨
    (Op.run Op.apply ops c = .error .emptyList ∧
      Op.run Op.exec ops s = .error .emptyList) := by
  rcases represents_of_run h hops with ⟨results, c', s', hrunc, hruns, h', hframe⟩ | hfails
  · exact .inl ⟨results, c', s', hrunc, hruns, h'.wellFormed, hframe⟩
  · exact .inr hfails

/-- Calls on two lists of numbers. -/
def callsOnTwoLists : List (Op Bool ℕ) :=
  [.append false 1, .prepend true 2, .appendAll false true, .remove false 1, .append true 1,
    .removeLast false]

/-- The numbers are linked to each other at first, though they are on no list. -/
def staleLinks : ℕ → Link ℕ := fun n => ⟨some (n + 1), some (n + 2)⟩

theorem wellFormed_callsOnTwoLists :
    ∃ results c' s', Op.run Op.apply callsOnTwoLists (fun _ => []) = .ok (results, c') ∧
      Op.run Op.exec callsOnTwoLists ⟨fun _ => Head.empty, staleLinks⟩ = .ok (results, s') ∧
      ∀ l, WellFormed (s'.list l) s'.link (c' l) := by
  have hops : Op.AllAllowed callsOnTwoLists fun _ => [] := by
    simp [callsOnTwoLists, Op.AllAllowed, Op.Allowed, Op.apply, Function.update]
  rcases wellFormed_of_run (represents_empty staleLinks) hops with
    ⟨results, c', s', hrunc, hruns, hwellFormed, -⟩ | ⟨hfails, -⟩
  · exact ⟨results, c', s', hrunc, hruns, hwellFormed⟩
  · cases hfails

end GeekOS.Lists
