import Mathlib.Data.Int.Order.Basic
import Mathlib.Order.Fin.Basic
import Mathlib.Data.List.Induction
import Mathlib.Logic.Function.Iterate
import Mathlib.Tactic.Common

/-!
# A terminal of 25 rows

What the console shows: a table of cells and a cursor in it. The operations are the ones of a
`struct console`, except that how the table scrolls is a parameter.

* `scrollUp`: all rows move up and the last one is blank;
* `displacedScroll`: the rows move up, and the cells that are cleared are not those of the last row;
* `exec_scrollUp_eq_iff`: when an operation does the same with both.
-/

namespace GeekOS.Console

/-- A character and its attribute. -/
abbrev Cell := UInt8 × UInt8

/-- An operation on the console. The arguments are values of type `int`. -/
inductive Op
  | clear
  | movecurs (row col : ℤ)
  | putchar (ch : ℤ)
  | cleartoeol
  deriving DecidableEq, Repr

/-- What the operation puts into the row of the cursor is blank. -/
def Op.LeavesBlank : Op → Prop
  | .putchar ch => ch = 9 ∨ ch = 10 ∨ UInt8.ofInt ch = 32
  | _ => True

/-- The cells and the cursor. -/
structure Terminal where
  cell : Fin 25 → Fin 80 → Cell
  row : Fin 25
  col : Fin 80

/-- The cell of a space. -/
def blank (attr : UInt8) : Cell := (32, attr)

namespace Terminal

variable (attr : UInt8)

/-- A blank terminal with the cursor in its first cell. -/
def cleared : Terminal := ⟨fun _ _ => blank attr, 0, 0⟩

/-- All rows move up by one and the last one is blank. -/
def scrollUp (t : Terminal) : Terminal :=
  { t with cell := fun r c => if h : r.val + 1 < 25 then t.cell ⟨r + 1, h⟩ c else blank attr }

/-- All rows move up by one, the last one stays as it is, and 80 cells are cleared from column 24
of the first row on. -/
def displacedScroll (t : Terminal) : Terminal :=
  { t with cell := fun r c =>
      if 24 ≤ 80 * r.val + c.val ∧ 80 * r.val + c.val < 104 then blank attr
      else if h : r.val + 1 < 25 then t.cell ⟨r + 1, h⟩ c else t.cell r c }

/-- A cursor move off the screen is ignored. -/
def movecurs (row col : ℤ) (t : Terminal) : Terminal :=
  if h : (0 ≤ row ∧ row < 25) ∧ 0 ≤ col ∧ col < 80 then
    { t with row := ⟨row.toNat, by omega⟩, col := ⟨col.toNat, by omega⟩ }
  else t

/-- Blank the row from the cursor on. -/
def cleartoeol (t : Terminal) : Terminal :=
  { t with cell := fun r c => if r = t.row ∧ t.col ≤ c then blank attr else t.cell r c }

/-- Spaces in the next `n` cells of the row. -/
def fill (n : ℕ) (t : Terminal) : Terminal :=
  { t with cell := fun r c =>
      if r = t.row ∧ t.col ≤ c ∧ c.val < t.col.val + n then blank attr else t.cell r c }

/-- A character in the cell of the cursor. -/
def store (ch : UInt8) (t : Terminal) : Terminal :=
  { t with cell := fun r c => if r = t.row ∧ c = t.col then (ch, attr) else t.cell r c }

section Scroll

variable (scroll : Terminal → Terminal)

/-- To the start of the next row. -/
def newline (t : Terminal) : Terminal :=
  if h : t.row.val + 1 < 25 then { t with row := ⟨t.row + 1, h⟩, col := 0 }
  else scroll { t with col := 0 }

/-- A character in the cell of the cursor, and the cursor to the next cell. -/
def putgraphic (ch : UInt8) (t : Terminal) : Terminal :=
  if h : t.col.val + 1 < 80 then { t.store attr ch with col := ⟨t.col + 1, h⟩ }
  else newline scroll (t.store attr ch)

/-- Spaces up to the next multiple of 8. -/
def tab (t : Terminal) : Terminal := (putgraphic attr scroll 32)^[8 - t.col.val % 8] t

/-- A character is put: a tab, a new line, or one that is shown. -/
def putchar (ch : ℤ) (t : Terminal) : Terminal :=
  if ch = 9 then t.tab attr scroll
  else if ch = 10 then newline scroll (t.cleartoeol attr)
  else t.putgraphic attr scroll (UInt8.ofInt ch)

/-- One operation. -/
def exec (t : Terminal) : Op → Terminal
  | .clear => cleared attr
  | .movecurs row col => t.movecurs row col
  | .putchar ch => t.putchar attr scroll ch
  | .cleartoeol => t.cleartoeol attr

/-- Operations one after the other. -/
def run (t : Terminal) (ops : List Op) : Terminal := ops.foldl (exec attr scroll) t

end Scroll

variable {attr} {scroll : Terminal → Terminal} {t t' : Terminal}

theorem ext_cells (hcell : ∀ r c, t.cell r c = t'.cell r c) (hrow : t.row = t'.row)
    (hcol : t.col = t'.col) : t = t' := by
  obtain ⟨cell, row, col⟩ := t
  obtain ⟨cell', row', col'⟩ := t'
  obtain rfl : cell = cell' := funext fun r => funext fun c => hcell r c
  subst hrow hcol
  rfl

/-! ## What a tab does -/

theorem newline_col (col : Fin 80) : newline scroll { t with col } = newline scroll t := rfl

theorem fill_zero : t.fill attr 0 = t := by
  refine ext_cells (fun r c => ?_) rfl rfl
  have hnot : ¬(r = t.row ∧ t.col ≤ c ∧ c.val < t.col.val + 0) := by
    rintro ⟨-, hle, hlt⟩
    exact absurd hlt (Nat.not_lt.mpr hle)
  exact if_neg hnot

/-- A space behind the ones that are there. -/
theorem store_fill {n : ℕ} (h : t.col.val + n < 80) :
    (store attr 32 ⟨(t.fill attr n).cell, t.row, ⟨t.col.val + n, h⟩⟩).cell =
      (t.fill attr (n + 1)).cell := by
  funext r c
  simp only [store, fill, blank, Fin.ext_iff, Fin.le_def]
  split_ifs <;> first | rfl | omega

/-- Spaces within the row. -/
theorem iterate_putgraphic {n : ℕ} (hn : t.col.val + n ≤ 80) :
    (putgraphic attr scroll 32)^[n] t =
      if h : t.col.val + n < 80 then ⟨(t.fill attr n).cell, t.row, ⟨t.col.val + n, h⟩⟩
      else newline scroll (t.fill attr n) := by
  induction n with
  | zero =>
    rw [dif_pos (show t.col.val + 0 < 80 from t.col.isLt)]
    exact ext_cells (fun r c => by rw [fill_zero]; rfl) rfl rfl
  | succ n ih =>
    have hlt : t.col.val + n < 80 := by omega
    rw [Function.iterate_succ_apply', ih (by omega), dif_pos hlt, putgraphic]
    by_cases hnext : t.col.val + n + 1 < 80
    · rw [dif_pos hnext, dif_pos (show t.col.val + (n + 1) < 80 from hnext)]
      exact ext_cells (fun r c => by rw [← store_fill hlt]) rfl rfl
    · rw [dif_neg hnext, dif_neg (show ¬t.col.val + (n + 1) < 80 from hnext)]
      rw [← newline_col (t := t.fill attr (n + 1)) ⟨t.col.val + n, hlt⟩]
      congr 1
      exact ext_cells (fun r c => by rw [← store_fill hlt]) rfl rfl

/-- A tab is spaces up to the next stop, and the stop may be the start of the next row. -/
theorem tab_eq : t.tab attr scroll =
    if h : t.col.val + (8 - t.col.val % 8) < 80 then
      ⟨(t.fill attr (8 - t.col.val % 8)).cell, t.row, ⟨t.col.val + (8 - t.col.val % 8), h⟩⟩
    else newline scroll (t.fill attr (8 - t.col.val % 8)) :=
  iterate_putgraphic (by omega)

/-! ## Where the two ways to scroll differ -/

/-- The cells that the displaced scroll clears, before the rows move up, and the last row left of
`col` are blank. -/
structure BlankForScroll (attr : UInt8) (t : Terminal) (col : ℕ) : Prop where
  lastRow : ∀ c, c.val < col → t.cell 24 c = blank attr
  displaced : ∀ r c, 104 ≤ 80 * r.val + c.val → 80 * r.val + c.val < 184 → t.cell r c = blank attr

/-- The operation moves past the last row. -/
def Scrolls (t : Terminal) : Op → Prop
  | .putchar ch => t.row = 24 ∧ (ch = 10 ∨ ch = 9 ∧ 72 ≤ t.col.val ∨ t.col = 79)
  | _ => False

/-- If the operation moves past the last row, then this row is blank and so are the cells from
column 24 of the second row to column 23 of the third one. -/
def Harmless (attr : UInt8) (t : Terminal) (op : Op) : Prop :=
  t.Scrolls op → op.LeavesBlank ∧ BlankForScroll attr t t.col

theorem scrollUp_eq_iff : scrollUp attr t = displacedScroll attr t ↔ BlankForScroll attr t 80 := by
  constructor
  · intro h
    have hcell : ∀ r c, (scrollUp attr t).cell r c = (displacedScroll attr t).cell r c := by
      intro r c
      rw [h]
    refine ⟨fun c _ => ?_, fun r c hlow hhigh => ?_⟩
    · have hlast := hcell 24 c
      simp only [scrollUp, displacedScroll] at hlast
      rw [dif_neg (by decide), if_neg (by omega), dif_neg (by decide)] at hlast
      exact hlast.symm
    · -- the row that this one becomes
      have hr : r.val - 1 < 25 := by omega
      have hmoved := hcell ⟨r.val - 1, hr⟩ c
      have hsucc : r.val - 1 + 1 = r.val := by omega
      simp only [scrollUp, displacedScroll, hsucc] at hmoved
      rw [dif_pos r.isLt, if_pos (by omega)] at hmoved
      exact hmoved
  · intro h
    refine ext_cells (fun r c => ?_) rfl rfl
    simp only [scrollUp, displacedScroll]
    split_ifs with hr hdisplaced hdisplaced
    · exact h.displaced ⟨r.val + 1, hr⟩ c (by simp only; omega) (by simp only; omega)
    · rfl
    · rfl
    · obtain rfl : r = 24 := Fin.ext (show r.val = 24 by omega)
      exact (h.lastRow c c.isLt).symm

theorem newline_scrollUp_eq_iff : newline (scrollUp attr) t = newline (displacedScroll attr) t ↔
    (t.row = 24 → BlankForScroll attr t 80) := by
  unfold newline
  split_ifs with h
  · refine iff_of_true rfl fun hrow => ?_
    rw [hrow] at h
    exact absurd h (by decide)
  · have hrow : t.row = 24 := Fin.ext (show t.row.val = 24 by omega)
    rw [scrollUp_eq_iff]
    exact ⟨fun hb _ => ⟨hb.lastRow, hb.displaced⟩, fun hb => ⟨(hb hrow).lastRow, (hb hrow).displaced⟩⟩

/-- Where an operation has changed the last row from the cursor on, the row is blank if it was blank
left of the cursor and what has been put into it is. -/
theorem blankForScroll_iff (hother : ∀ r c, r ≠ 24 → t'.cell r c = t.cell r c)
    (hleft : ∀ c < t.col, t'.cell 24 c = t.cell 24 c) : BlankForScroll attr t' 80 ↔
      (∀ c, t.col ≤ c → t'.cell 24 c = blank attr) ∧ BlankForScroll attr t t.col := by
  have hdisplaced : ∀ r c, 80 * r.val + c.val < 184 → t'.cell r c = t.cell r c := by
    intro r c hlt
    refine hother r c fun hr => ?_
    rw [hr, show (24 : Fin 25).val = 24 from rfl] at hlt
    omega
  constructor
  · intro h
    refine ⟨fun c _ => h.lastRow c c.isLt, fun c hc => ?_, fun r c hlow hhigh => ?_⟩
    · rw [← hleft c hc]
      exact h.lastRow c c.isLt
    · rw [← hdisplaced r c hhigh]
      exact h.displaced r c hlow hhigh
  · rintro ⟨hright, hb⟩
    refine ⟨fun c _ => ?_, fun r c hlow hhigh => ?_⟩
    · rcases lt_or_ge c t.col with hc | hc
      · rw [hleft c hc]
        exact hb.lastRow c hc
      · exact hright c hc
    · rw [hdisplaced r c hhigh]
      exact hb.displaced r c hlow hhigh

theorem blankForScroll_cleartoeol (hrow : t.row = 24) :
    BlankForScroll attr (t.cleartoeol attr) 80 ↔ BlankForScroll attr t t.col := by
  rw [blankForScroll_iff (t := t)]
  · refine and_iff_right fun c hc => ?_
    simp only [cleartoeol, hrow, hc, and_self, if_true]
  · intro r c hr
    simp only [cleartoeol, hrow, hr, false_and, if_false]
  · intro c hc
    simp only [cleartoeol, not_le.mpr hc, and_false, if_false]

theorem blankForScroll_fill {n : ℕ} (hrow : t.row = 24) (hn : t.col.val + n = 80) :
    BlankForScroll attr (t.fill attr n) 80 ↔ BlankForScroll attr t t.col := by
  rw [blankForScroll_iff (t := t)]
  · refine and_iff_right fun c hc => ?_
    have hlt : c.val < t.col.val + n := by omega
    simp only [fill, hrow, hc, hlt, and_self, if_true]
  · intro r c hr
    simp only [fill, hrow, hr, false_and, if_false]
  · intro c hc
    simp only [fill, not_le.mpr hc, false_and, and_false, if_false]

theorem blankForScroll_store {ch : UInt8} (hrow : t.row = 24) (hcol : t.col = 79) :
    BlankForScroll attr (t.store attr ch) 80 ↔ ch = 32 ∧ BlankForScroll attr t t.col := by
  rw [blankForScroll_iff (t := t)]
  · refine and_congr_left fun _ => ⟨fun h => ?_, fun h c hc => ?_⟩
    · have hcell := h 79 hcol.le
      simp only [store, hrow, hcol, and_self, if_true] at hcell
      exact congrArg Prod.fst hcell
    · have hc' : c = t.col := by
        rw [hcol] at hc ⊢
        exact le_antisymm (Fin.le_last c) hc
      simp only [store, hrow, hc', and_self, if_true, h]
      rfl
  · intro r c hr
    simp only [store, hrow, hr, false_and, if_false]
  · intro c hc
    simp only [store, hc.ne, and_false, if_false]

/-- A character has the same effect with both scrolls if and only if it is harmless. -/
theorem putchar_scrollUp_eq_iff {ch : ℤ} :
    t.putchar attr (scrollUp attr) ch = t.putchar attr (displacedScroll attr) ch ↔
      Harmless attr t (.putchar ch) := by
  unfold putchar
  split_ifs with htab hnewline
  · -- a tab
    subst htab
    rw [tab_eq, tab_eq]
    split_ifs with h
    · -- the tab stays in the row, so nothing scrolls
      refine iff_of_true rfl fun hs => ?_
      have := hs.2
      simp only [Fin.ext_iff] at this
      omega
    · have hn : t.col.val + (8 - t.col.val % 8) = 80 := by omega
      have hstop : 72 ≤ t.col.val := by omega
      rw [newline_scrollUp_eq_iff]
      refine ⟨fun hb hs => ⟨.inl rfl, (blankForScroll_fill hs.1 hn).mp (hb hs.1)⟩, fun hb hrow => ?_⟩
      exact (blankForScroll_fill (t := t) hrow hn).mpr (hb ⟨hrow, .inr (.inl ⟨rfl, hstop⟩)⟩).2
  · -- a newline
    subst hnewline
    rw [newline_scrollUp_eq_iff]
    refine ⟨fun hb hs => ⟨.inr (.inl rfl), (blankForScroll_cleartoeol hs.1).mp (hb hs.1)⟩,
      fun hb hrow => ?_⟩
    exact (blankForScroll_cleartoeol (t := t) hrow).mpr (hb ⟨hrow, .inl rfl⟩).2
  · -- a graphic character
    unfold putgraphic
    split_ifs with h
    · refine iff_of_true rfl fun hs => ?_
      rcases hs.2 with h' | ⟨h', -⟩ | h'
      · exact absurd h' hnewline
      · exact absurd h' htab
      · rw [h'] at h
        exact absurd h (by decide)
    · -- the character goes into the last cell of the row
      have hcol : t.col = 79 := Fin.ext (show t.col.val = 79 by omega)
      rw [newline_scrollUp_eq_iff]
      constructor
      · intro hb hs
        obtain ⟨hch, hblank⟩ := (blankForScroll_store hs.1 hcol).mp (hb hs.1)
        exact ⟨.inr (.inr hch), hblank⟩
      · intro hb hrow
        obtain ⟨hch, hblank⟩ := hb ⟨hrow, .inr (.inr hcol)⟩
        have hch' : UInt8.ofInt ch = 32 := (hch.resolve_left htab).resolve_left hnewline
        exact (blankForScroll_store (t := t) hrow hcol).mpr ⟨hch', hblank⟩

theorem exec_scrollUp_eq_iff {op : Op} :
    t.exec attr (scrollUp attr) op = t.exec attr (displacedScroll attr) op ↔
      Harmless attr t op := by
  cases op with
  | clear | movecurs | cleartoeol => exact iff_of_true rfl fun hs => hs.elim
  | putchar ch => exact putchar_scrollUp_eq_iff

/-- Runs of the two terminals agree all along if and only if every operation is harmless where it
comes in the run of the terminal that scrolls up. -/
theorem run_scrollUp_eq_iff {ops : List Op} :
    (∀ ops', ops' <+: ops →
      t.run attr (scrollUp attr) ops' = t.run attr (displacedScroll attr) ops') ↔
      ∀ ops' op, ops' ++ [op] <+: ops → Harmless attr (t.run attr (scrollUp attr) ops') op := by
  have hrun : ∀ scroll ops' op, t.run attr scroll (ops' ++ [op]) =
      (t.run attr scroll ops').exec attr scroll op := by
    intro scroll ops' op
    simp only [run, List.foldl_append, List.foldl_cons, List.foldl_nil]
  constructor
  · intro h ops' op hops'
    -- the two runs agree before the operation and behind it
    have hbefore := h ops' ((List.prefix_append ops' [op]).trans hops')
    have hafter := h _ hops'
    rw [hrun, hrun, ← hbefore] at hafter
    exact exec_scrollUp_eq_iff.mp hafter
  · intro h ops'
    induction ops' using List.reverseRecOn with
    | nil => exact fun _ => rfl
    | append_singleton ops' op ih =>
      intro hops'
      rw [hrun, hrun, ← ih ((List.prefix_append ops' [op]).trans hops')]
      exact exec_scrollUp_eq_iff.mpr (h ops' op hops')

end Terminal

end GeekOS.Console
