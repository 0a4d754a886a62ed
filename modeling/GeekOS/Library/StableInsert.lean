import Mathlib.Data.List.Sort
import Mathlib.Data.List.Perm.Basic
import Mathlib.Data.List.TakeWhile

/-!
# Stable insertion by a key

`insertAfter key x l` puts `x` behind the last entry of the sorted list `l` whose key is not
larger than its own: Mathlib's `List.orderedInsert` for the strict order of the keys. Inserting
one entry after another therefore sorts stably; `insertAll_empty` says that the outcome is
core's stable `List.mergeSort`.

* `Splits l x r`: `r` is `l` with `x` put in somewhere, everything else left in its order;
* `pairwise_insertAfter`: which order relations an insertion keeps;
* `filter_insertAfter`: insertion and selecting the entries of one kind commute;
* `eq_of_sorted_of_filter_key`: a sorted list is determined by its entries of each key;
* `insertAll_empty`, `filter_insertAll`: one entry after another, into the empty list or among
  entries of other kinds.
-/

namespace StableInsert

variable {α ι : Type*}

/-- `r` is the list `l` with `x` put in at one place. -/
def Splits (l : List α) (x : α) (r : List α) : Prop :=
  ∃ l₁ l₂, l = l₁ ++ l₂ ∧ r = l₁ ++ x :: l₂

namespace Splits

variable {l r : List α} {x : α}

theorem append (l : List α) (x : α) : Splits l x (l ++ [x]) := ⟨l, [], by simp, rfl⟩

theorem perm (h : Splits l x r) : r.Perm (x :: l) := by
  obtain ⟨l₁, l₂, rfl, rfl⟩ := h
  exact List.perm_middle

theorem mem_iff (h : Splits l x r) {y : α} : y ∈ r ↔ y = x ∨ y ∈ l := by
  rw [h.perm.mem_iff, List.mem_cons]

theorem nodup_iff (h : Splits l x r) : r.Nodup ↔ x ∉ l ∧ l.Nodup := by
  rw [h.perm.nodup_iff, List.nodup_cons]

theorem ne_nil (h : Splits l x r) : r ≠ [] := by
  obtain ⟨l₁, l₂, -, rfl⟩ := h
  simp

/-- Entries of a kind to which `x` does not belong are left as they were. -/
theorem filter_neg (h : Splits l x r) {p : α → Bool} (hx : p x = false) :
    r.filter p = l.filter p := by
  obtain ⟨l₁, l₂, rfl, rfl⟩ := h
  simp [hx]

end Splits

variable [LinearOrder ι] (key : α → ι)

/-- Insertion behind the last entry whose key is not larger. -/
def insertAfter (x : α) (l : List α) : List α :=
  l.orderedInsert (fun a b => key a < key b) x

@[simp]
theorem insertAfter_nil (x : α) : insertAfter key x [] = [x] := rfl

theorem insertAfter_cons (x y : α) (l : List α) :
    insertAfter key x (y :: l) = if key x < key y then x :: y :: l else y :: insertAfter key x l :=
  rfl

/-- Where the new entry goes: behind the entries that are not larger. -/
theorem insertAfter_eq (x : α) (l : List α) :
    insertAfter key x l =
      l.takeWhile (fun y => key y ≤ key x) ++ x :: l.dropWhile (fun y => key y ≤ key x) := by
  rw [insertAfter, List.orderedInsert_eq_take_drop]
  simp only [not_lt]

theorem splits_insertAfter (x : α) (l : List α) : Splits l x (insertAfter key x l) :=
  ⟨_, _, (List.takeWhile_append_dropWhile ..).symm, insertAfter_eq key x l⟩

variable {key}

/-- A list all of whose entries come before the new one gets it at its end. -/
theorem insertAfter_eq_append {x : α} {l : List α} (h : ∀ y ∈ l, key y ≤ key x) :
    insertAfter key x l = l ++ [x] := by
  rw [insertAfter_eq, List.takeWhile_eq_self_iff.mpr (by simpa using h),
    List.dropWhile_eq_nil_iff.mpr (by simpa using h)]

/-- A last entry that is larger stays last. -/
theorem insertAfter_append_singleton {x y : α} (h : key x < key y) (l : List α) :
    insertAfter key x (l ++ [y]) = insertAfter key x l ++ [y] := by
  induction l with
  | nil => simp [insertAfter_cons, h]
  | cons z l ih =>
    rw [List.cons_append, insertAfter_cons, insertAfter_cons, ih]
    split <;> rfl

/-- Insertion keeps a relation that refines the order of the keys, if the new entry may stand
behind the entries that are not larger and before the larger ones. -/
theorem pairwise_insertAfter {R : α → α → Prop} (hR : ∀ a b, R a b → key a ≤ key b) {x : α}
    {l : List α} (hl : l.Pairwise R) (hbefore : ∀ y ∈ l, key y ≤ key x → R y x)
    (hbehind : ∀ y ∈ l, key x < key y → R x y) : (insertAfter key x l).Pairwise R := by
  induction l with
  | nil => simp
  | cons y l ih =>
    obtain ⟨hy, hl⟩ := List.pairwise_cons.mp hl
    rw [insertAfter_cons]
    split
    next hlt =>
      refine List.pairwise_cons.mpr ⟨fun z hz => ?_, List.pairwise_cons.mpr ⟨hy, hl⟩⟩
      rcases List.mem_cons.mp hz with rfl | hz'
      · exact hbehind _ List.mem_cons_self hlt
      · exact hbehind z (List.mem_cons_of_mem _ hz') (hlt.trans_le (hR _ _ (hy z hz')))
    next hle =>
      refine List.pairwise_cons.mpr ⟨fun z hz => ?_, ih hl
        (fun z hz => hbefore z (List.mem_cons_of_mem _ hz))
        (fun z hz => hbehind z (List.mem_cons_of_mem _ hz))⟩
      rcases (splits_insertAfter key x l).mem_iff.mp hz with rfl | hz'
      · exact hbefore y List.mem_cons_self (not_lt.mp hle)
      · exact hy z hz'

/-- Insertion keeps a list sorted by its keys. -/
theorem sorted_insertAfter {x : α} {l : List α} (hl : l.Pairwise (key · ≤ key ·)) :
    (insertAfter key x l).Pairwise (key · ≤ key ·) :=
  pairwise_insertAfter (fun _ _ h => h) hl (fun _ _ h => h) (fun _ _ h => h.le)

/-- Inserting into a sorted list and keeping the entries of one kind commute. -/
theorem filter_insertAfter {p : α → Bool} {x : α} {l : List α} (hx : p x = true)
    (hl : l.Pairwise (key · ≤ key ·)) :
    (insertAfter key x l).filter p = insertAfter key x (l.filter p) := by
  induction l with
  | nil => simp [hx]
  | cons y l ih =>
    obtain ⟨hy, hl⟩ := List.pairwise_cons.mp hl
    rw [insertAfter_cons]
    split
    next hlt =>
      -- every entry that is kept is larger, so the new one stays in front
      have hall : ∀ z ∈ (y :: l).filter p, key x < key z := by
        intro z hz
        rcases List.mem_cons.mp (List.mem_of_mem_filter hz) with rfl | hz'
        · exact hlt
        · exact hlt.trans_le (hy z hz')
      rw [List.filter_cons_of_pos hx]
      cases hf : (y :: l).filter p with
      | nil => rfl
      | cons z r => rw [insertAfter_cons, if_pos (hall z (by rw [hf]; exact List.mem_cons_self))]
    next hle =>
      by_cases hpy : p y = true
      · rw [List.filter_cons_of_pos hpy, List.filter_cons_of_pos hpy, insertAfter_cons,
          if_neg hle, ih hl]
      · rw [List.filter_cons_of_neg hpy, List.filter_cons_of_neg hpy, ih hl]

/-! ## Sorting by repeated insertion -/

/-- A sorted list is determined by its entries of each key, taken in their order. -/
theorem eq_of_sorted_of_filter_key {l l' : List α} (hl : l.Pairwise (key · ≤ key ·))
    (hl' : l'.Pairwise (key · ≤ key ·))
    (h : ∀ c, l.filter (fun a => key a = c) = l'.filter (fun a => key a = c)) : l = l' := by
  induction l generalizing l' with
  | nil =>
    cases l' with
    | nil => rfl
    | cons y l' => simpa using h (key y)
  | cons x l ih =>
    cases l' with
    | nil => simpa using h (key x)
    | cons y l' =>
      obtain ⟨hx, htail⟩ := List.pairwise_cons.mp hl
      obtain ⟨hy, htail'⟩ := List.pairwise_cons.mp hl'
      -- each list's first key occurs in the other one, so the two first keys agree
      have hxy : key x ≤ key y := by
        have hmem : y ∈ (x :: l).filter (fun a => key a = key y) := by rw [h]; simp
        rcases List.mem_cons.mp (List.mem_of_mem_filter hmem) with rfl | hmem
        · exact le_rfl
        · exact hx y hmem
      have hyx : key y ≤ key x := by
        have hmem : x ∈ (y :: l').filter (fun a => key a = key x) := by rw [← h]; simp
        rcases List.mem_cons.mp (List.mem_of_mem_filter hmem) with rfl | hmem
        · exact le_rfl
        · exact hy x hmem
      have hkey : key y = key x := le_antisymm hyx hxy
      obtain rfl : x = y := by
        have := h (key x)
        simp only [List.filter_cons, hkey, decide_true, if_true, List.cons.injEq] at this
        exact this.1
      refine congrArg (x :: ·) (ih htail htail' fun c => ?_)
      have := h c
      by_cases hc : key x = c
      · simpa [hc] using this
      · simpa [hc] using this

/-- The stable sort by a key. -/
def stableSort (key : α → ι) (l : List α) : List α :=
  l.mergeSort (fun a b => key a ≤ key b)

theorem stableSort_perm (l : List α) : (stableSort key l).Perm l := List.mergeSort_perm ..

theorem sorted_stableSort (l : List α) : (stableSort key l).Pairwise (key · ≤ key ·) := by
  have : (l.mergeSort fun a b => decide (key a ≤ key b)).Pairwise
      fun a b => decide (key a ≤ key b) = true := List.pairwise_mergeSort
    (fun a b c hab hbc => by simp only [decide_eq_true_eq] at *; exact hab.trans hbc)
    (fun a b => by simpa using le_total (key a) (key b)) l
  simpa [stableSort] using this

theorem stableSort_of_sorted {l : List α} (hl : l.Pairwise (key · ≤ key ·)) :
    stableSort key l = l :=
  List.mergeSort_of_pairwise (by simpa using hl)

/-- The stable sort keeps entries of equal keys in their order. -/
theorem filter_stableSort (l : List α) (c : ι) :
    (stableSort key l).filter (fun a => key a = c) = l.filter (fun a => key a = c) := by
  have hsub : (l.filter (fun a => key a = c)).Sublist (stableSort key l) := by
    refine List.sublist_mergeSort
      (fun a b c hab hbc => by simp only [decide_eq_true_eq] at *; exact hab.trans hbc)
      (fun a b => by simpa using le_total (key a) (key b)) ?_ List.filter_sublist
    refine List.pairwise_of_forall_mem_list fun a ha b hb => ?_
    have ha' : key a = c := by simpa using List.of_mem_filter ha
    have hb' : key b = c := by simpa using List.of_mem_filter hb
    simp [ha', hb']
  have hsub' := hsub.filter (fun a => key a = c)
  rw [List.filter_filter] at hsub'
  simp only [Bool.and_self] at hsub'
  exact (hsub'.eq_of_length ((stableSort_perm l).filter _).length_eq.symm).symm

/-- Inserting the entries of a list one after another. -/
def insertAll (key : α → ι) (l acc : List α) : List α :=
  l.foldl (fun acc x => insertAfter key x acc) acc

@[simp]
theorem insertAll_nil (acc : List α) : insertAll key [] acc = acc := rfl

@[simp]
theorem insertAll_cons (x : α) (l acc : List α) :
    insertAll key (x :: l) acc = insertAll key l (insertAfter key x acc) := rfl

theorem sorted_insertAll {l acc : List α} (hacc : acc.Pairwise (key · ≤ key ·)) :
    (insertAll key l acc).Pairwise (key · ≤ key ·) := by
  induction l generalizing acc with
  | nil => exact hacc
  | cons x l ih => exact ih (sorted_insertAfter hacc)

/-- Among the entries of one key, the inserted ones come behind in their order. -/
theorem filter_key_insertAll {l acc : List α} (hacc : acc.Pairwise (key · ≤ key ·)) (c : ι) :
    (insertAll key l acc).filter (fun a => key a = c) =
      acc.filter (fun a => key a = c) ++ l.filter (fun a => key a = c) := by
  induction l generalizing acc with
  | nil => simp
  | cons x l ih =>
    rw [insertAll_cons, ih (sorted_insertAfter hacc)]
    by_cases hx : key x = c
    · have happ : insertAfter key x (acc.filter fun a => key a = c) =
          (acc.filter fun a => key a = c) ++ [x] :=
        insertAfter_eq_append fun y hy => by
          have : key y = c := by simpa using List.of_mem_filter hy
          rw [this, hx]
      rw [filter_insertAfter (by simpa using hx) hacc, happ]
      simp [hx]
    · rw [(splits_insertAfter key x acc).filter_neg (by simpa using hx)]
      simp [hx]

/-- Inserting one entry after another sorts stably. -/
theorem insertAll_empty (l : List α) : insertAll key l [] = stableSort key l :=
  eq_of_sorted_of_filter_key (sorted_insertAll List.Pairwise.nil) (sorted_stableSort l)
    fun c => by rw [filter_key_insertAll List.Pairwise.nil, filter_stableSort]; simp

theorem insertAll_append (l l' acc : List α) :
    insertAll key (l ++ l') acc = insertAll key l' (insertAll key l acc) :=
  List.foldl_append

/-- A stable sort takes one more entry at its place. -/
theorem stableSort_append_singleton (l : List α) (x : α) :
    stableSort key (l ++ [x]) = insertAfter key x (stableSort key l) := by
  rw [← insertAll_empty, ← insertAll_empty, insertAll_append, insertAll_cons, insertAll_nil]

/-- Of a list inserted into entries of other kinds, the entries of its kind are what its own
stable sort would be. -/
theorem filter_insertAll {p : α → Bool} {l acc : List α} (hl : ∀ x ∈ l, p x = true)
    (hacc : acc.Pairwise (key · ≤ key ·)) :
    (insertAll key l acc).filter p = insertAll key l (acc.filter p) := by
  induction l generalizing acc with
  | nil => rfl
  | cons x l ih =>
    rw [insertAll_cons, ih (fun y hy => hl y (List.mem_cons_of_mem _ hy)) (sorted_insertAfter hacc),
      filter_insertAfter (hl x List.mem_cons_self) hacc, insertAll_cons]

/-- Entries may be renamed, if their keys stay the same. -/
theorem insertAfter_map {β : Type*} (f : β → α) (x : β) (l : List β) :
    insertAfter key (f x) (l.map f) = (insertAfter (fun b => key (f b)) x l).map f := by
  induction l with
  | nil => rfl
  | cons y l ih =>
    rw [List.map_cons, insertAfter_cons, insertAfter_cons, ih]
    split <;> rfl

/-- Only the keys of the entries concerned matter. -/
theorem insertAfter_congr {key' : α → ι} {x : α} {l : List α} (hx : key' x = key x)
    (hl : ∀ y ∈ l, key' y = key y) : insertAfter key' x l = insertAfter key x l := by
  induction l with
  | nil => rfl
  | cons y l ih =>
    rw [insertAfter_cons, insertAfter_cons, hx, hl y List.mem_cons_self,
      ih fun z hz => hl z (List.mem_cons_of_mem _ hz)]

end StableInsert
