import GeekOS.Console.Terminal
import GeekOS.Library.AddressLoop

/-!
# The VGA console

`x86_cons.c`: the console writes bytes into the video memory, at addresses that the macros compute
from a column and a row, and keeps the cursor in `struct x86cons` and in two registers of the
display controller. A store outside of the video memory is a failure. The copies for the debugger on
port E9 are left out.

* `Depicts`: the bytes are the cells of a terminal;
* `x86consScroll_depicts` and the lemmas behind it: what each function does to that terminal. The
  scroll is the displaced one, since the macro for addresses takes the column first;
* `agrees_iff_harmless`: when the console agrees with a terminal that scrolls up.
-/

namespace GeekOS.Console

open AddressLoop Terminal

/-- What stops the console. -/
inductive ConsoleFault
  /-- The assertion of `x86cons_clear_area`. -/
  | areaOffScreen
  /-- A store outside of the video memory. -/
  | outside (a : ℕ)
  deriving DecidableEq, Repr

/-- Bytes by address. -/
abbrev Mem := ℕ → UInt8

/-- `VGA_VIDMEM`. -/
def vgaVidmem : ℕ := 0xB8000

/-- `VGA_NUMROWS`. -/
def vgaNumrows : ℕ := 25

/-- `VGA_NUMCOLS`. -/
def vgaNumcols : ℕ := 80

/-- `VGA_BYTES_PER_ROW`. -/
def vgaBytesPerRow : ℕ := vgaNumcols * 2

/-- `CONS_TABSIZE`. -/
def consTabsize : ℕ := 8

/-- `ROW_ADDR`. -/
def rowAddr (row : ℕ) : ℕ := vgaVidmem + row * vgaBytesPerRow

/-- `ADDR`. -/
def addr (x y : ℕ) : ℕ := rowAddr y + x * 2

/-- The registers of the display controller, behind an address port and a data port. -/
structure Crt where
  address : UInt8
  reg : UInt8 → UInt8

/-- `ioport_outb` on the address port. -/
def Crt.outAddress (crt : Crt) (v : UInt8) : Crt := { crt with address := v }

/-- `ioport_outb` on the data port. -/
def Crt.outData (crt : Crt) (v : UInt8) : Crt :=
  { crt with reg := Function.update crt.reg crt.address v }

/-- Where the controller shows the cursor, as the number of a cell. -/
def Crt.cursor (crt : Crt) : ℕ := (crt.reg 0x0E).toNat * 256 + (crt.reg 0x0F).toNat

/-- The video memory, the controller and `struct x86cons`. -/
structure X86cons where
  mem : Mem
  crt : Crt
  y : ℕ
  x : ℕ
  attr : UInt8

/-- The bytes of the video memory. -/
def Inside (a : ℕ) : Prop := vgaVidmem ≤ a ∧ a < vgaVidmem + vgaNumrows * vgaBytesPerRow

instance (a : ℕ) : Decidable (Inside a) := inferInstanceAs (Decidable (_ ∧ _))

/-- Store a byte into the video memory. -/
def storeByte (a : ℕ) (v : UInt8) (mem : Mem) : Except ConsoleFault Mem := do
  Result.require (Inside a) (.outside a)
  return Function.update mem a v

/-- `memcpy`, wherever it stores to. -/
def memcpy : ℕ → ℕ → ℕ → Mem → Mem
  | _, _, 0, mem => mem
  | dst, src, n + 1, mem => memcpy (dst + 1) (src + 1) n (Function.update mem dst (mem src))

/-- `memcpy` into the video memory. -/
def memcpyInside : ℕ → ℕ → ℕ → Mem → Except ConsoleFault Mem
  | _, _, 0, mem => return mem
  | dst, src, n + 1, mem => do
      let mem ← storeByte dst (mem src) mem
      memcpyInside (dst + 1) (src + 1) n mem

/-- A round of the loop in `x86cons_clear_area`. -/
def storeBlank (attr : UInt8) (mem : Mem) (ptr : ℕ) : Except ConsoleFault Mem := do
  let mem ← storeByte ptr 32 mem
  storeByte (ptr + 1) attr mem

variable (s : X86cons)

/-- `x86cons_clear_area`. -/
def x86consClearArea (x y n : ℕ) (s : X86cons) : Except ConsoleFault X86cons := do
  Result.require (y * vgaNumcols + x + n ≤ vgaNumcols * vgaNumrows) .areaOffScreen
  let ptr := addr x y
  let final := ptr + n * 2
  let mem ← forAddress ptr final 2 (storeBlank s.attr) s.mem
  return { s with mem }

/-- The loop of `x86cons_scroll`, which copies the rows 1 to `rows` up one row. -/
def moveRows (rows : ℕ) (mem : Mem) : Except ConsoleFault Mem :=
  (List.range' 1 rows).foldlM
    (fun mem j => memcpyInside (rowAddr (j - 1)) (rowAddr j) vgaBytesPerRow mem) mem

/-- `x86cons_scroll`. -/
def x86consScroll : Except ConsoleFault X86cons := do
  let mem ← moveRows (vgaNumrows - 1) s.mem
  -- the row is passed for `x`, and the column for `y`
  x86consClearArea (vgaNumrows - 1) 0 vgaNumcols { s with mem }

/-- `x86cons_newline`. -/
def x86consNewline : Except ConsoleFault X86cons :=
  let s := { s with x := 0 }
  if s.y = vgaNumrows - 1 then x86consScroll s else return { s with y := s.y + 1 }

/-- `x86cons_putgraphic`. -/
def x86consPutgraphic (ch : ℤ) (s : X86cons) : Except ConsoleFault X86cons := do
  let ptr := addr s.x s.y
  let mem ← storeByte ptr (UInt8.ofInt ch) s.mem
  let mem ← storeByte (ptr + 1) s.attr mem
  let s := { s with mem, x := s.x + 1 }
  if vgaNumcols ≤ s.x then x86consNewline s else return s

/-- `x86cons_updatecurs`. -/
def x86consUpdatecurs : X86cons :=
  let charoff := s.y * vgaNumcols + s.x
  let origaddr := s.crt.address
  let crt := (s.crt.outAddress 0x0E).outData (UInt8.ofNat (charoff / 256 % 256))
  let crt := (crt.outAddress 0x0F).outData (UInt8.ofNat (charoff % 256))
  { s with crt := crt.outAddress origaddr }

/-- `x86cons_movecurs`. -/
def x86consMovecurs (row col : ℤ) (s : X86cons) : X86cons :=
  if (0 ≤ row ∧ row < vgaNumrows) ∧ 0 ≤ col ∧ col < vgaNumcols then
    x86consUpdatecurs { s with y := row.toNat, x := col.toNat }
  else s

/-- `x86cons_clear`. -/
def x86consClear : Except ConsoleFault X86cons := do
  let s ← x86consClearArea 0 0 (vgaNumrows * vgaNumcols) s
  return x86consMovecurs 0 0 s

/-- `x86cons_cleartoeol`. -/
def x86consCleartoeol : Except ConsoleFault X86cons :=
  let toclear := vgaNumcols - s.x
  x86consClearArea s.x s.y toclear s

/-- The loop of `x86cons_putchar` for a tab. -/
def putSpaces : ℕ → X86cons → Except ConsoleFault X86cons
  | 0, s => .ok s
  | nspace + 1, s => do
      let s ← x86consPutgraphic 32 s
      putSpaces nspace s

/-- `x86cons_putchar`. -/
def x86consPutchar (ch : ℤ) (s : X86cons) : Except ConsoleFault X86cons := do
  let s ← (if ch = 9 then putSpaces (8 - s.x % consTabsize) s
    else if ch = 10 then x86consCleartoeol s >>= x86consNewline
    else x86consPutgraphic ch s)
  return x86consUpdatecurs s

/-- `x86cons_write`, on the characters in memory from `str` on. -/
def x86consWrite : List ℤ → X86cons → Except ConsoleFault X86cons
  | [], s => .ok s
  | ch :: str, s =>
      if ch = 0 then .ok s
      else do
        let s ← x86consPutchar ch s
        x86consWrite str s

/-- One operation. -/
def exec (s : X86cons) : Op → Except ConsoleFault X86cons
  | .clear => x86consClear s
  | .movecurs row col => .ok (x86consMovecurs row col s)
  | .putchar ch => x86consPutchar ch s
  | .cleartoeol => x86consCleartoeol s

/-- A call from outside: an operation, or `x86cons_write`. -/
inductive Call
  | op (o : Op)
  | write (str : List ℤ)
  deriving DecidableEq, Repr

/-- What a call does. -/
def Call.exec (s : X86cons) : Call → Except ConsoleFault X86cons
  | .op o => Console.exec s o
  | .write str => x86consWrite str s

/-- The operations of a call. -/
def Call.ops : Call → List Op
  | .op o => [o]
  | .write str => (str.takeWhile (· ≠ 0)).map .putchar

/-- The cell with this number. -/
def cellAt (mem : Mem) (k : ℕ) : Cell := (mem (vgaVidmem + 2 * k), mem (vgaVidmem + 2 * k + 1))

/-- The video memory and the cursor of the console are those of the terminal. -/
structure Depicts (attr : UInt8) (s : X86cons) (t : Terminal) : Prop where
  cell : ∀ r c, cellAt s.mem (80 * r.val + c.val) = t.cell r c
  y : s.y = t.row
  x : s.x = t.col
  attr : s.attr = attr

/-- The controller shows the cursor there, too. -/
structure Shows (attr : UInt8) (s : X86cons) (t : Terminal) : Prop extends Depicts attr s t where
  cursor : s.crt.cursor = 80 * t.row.val + t.col.val

variable {s} {attr : UInt8} {t t' : Terminal} {mem : Mem}

/-! ## The bytes and the cells -/

/-- A copy downwards, or to memory behind the source. -/
theorem memcpy_apply {dst src n : ℕ} (h : dst ≤ src ∨ src + n ≤ dst) (mem : Mem) (a : ℕ) :
    memcpy dst src n mem a =
      if dst ≤ a ∧ a < dst + n then mem (src + (a - dst)) else mem a := by
  induction n generalizing dst src mem with
  | zero => rw [memcpy, if_neg (by omega)]
  | succ n ih =>
    rw [memcpy, ih (by omega)]
    by_cases ha : a = dst
    · subst ha
      rw [if_neg (by omega), if_pos (by omega), Function.update_self, Nat.sub_self, Nat.add_zero]
    · rw [Function.update_of_ne ha]
      split_ifs with hnext htotal htotal
      · -- none of the bytes that are still to be read is the one that has been stored
        rw [Function.update_of_ne (by omega)]
        congr 1
        omega
      · omega
      · omega
      · rfl

theorem storeByte_ok {a : ℕ} (h : Inside a) (v : UInt8) (mem : Mem) :
    storeByte a v mem = .ok (Function.update mem a v) := by
  rw [storeByte, Result.require, if_pos h]
  rfl

/-- A copy into the video memory is a copy. -/
theorem memcpyInside_ok {dst src n : ℕ} (h : ∀ k < n, Inside (dst + k)) (mem : Mem) :
    memcpyInside dst src n mem = .ok (memcpy dst src n mem) := by
  induction n generalizing dst src mem with
  | zero => rfl
  | succ n ih =>
    have hdst : Inside dst := h 0 (Nat.succ_pos n)
    rw [memcpyInside, storeByte_ok hdst, Result.ok_bind, memcpy]
    refine ih (fun k hk => ?_) _
    rw [Nat.add_assoc, Nat.add_comm 1 k]
    exact h (k + 1) (Nat.succ_lt_succ hk)

/-- The bytes of a cell of the screen. -/
theorem inside_of_lt {k : ℕ} (h : k < 4000) : Inside (vgaVidmem + k) :=
  ⟨Nat.le_add_right .., Nat.add_lt_add_left h _⟩

/-- Memory with `n` blank cells from `ptr` on. -/
def blanked (attr : UInt8) (ptr n : ℕ) (mem : Mem) : Mem := fun a =>
  if ptr ≤ a ∧ a < ptr + n * 2 then if (a - ptr) % 2 = 0 then 32 else attr else mem a

/-- What the loop of `x86cons_clear_area` leaves. -/
theorem clearLoop_eq (attr : UInt8) {n ptr : ℕ} (h : ∀ k < n * 2, Inside (ptr + k)) (mem : Mem) :
    forAddress ptr (ptr + n * 2) 2 (storeBlank attr) mem = .ok (blanked attr ptr n mem) := by
  unfold blanked
  induction n generalizing ptr mem with
  | zero =>
    rw [forAddress_eq (by decide), if_neg (by omega)]
    congr 1
    funext a
    rw [if_neg (by omega)]
  | succ n ih =>
    -- the first round stores a cell, and the rest of the area lies behind it
    have hround : storeBlank attr mem ptr =
        .ok (Function.update (Function.update mem ptr 32) (ptr + 1) attr) := by
      have hptr : Inside ptr := h 0 (by omega)
      rw [storeBlank, storeByte_ok hptr, Result.ok_bind, storeByte_ok (h 1 (by omega))]
    have hrest : ∀ k < n * 2, Inside (ptr + 2 + k) := by
      intro k hk
      rw [Nat.add_assoc]
      exact h (2 + k) (by omega)
    rw [forAddress_eq (by decide), if_pos (by omega), hround, Result.ok_bind,
      show ptr + (n + 1) * 2 = ptr + 2 + n * 2 by omega, ih hrest]
    congr 1
    funext a
    -- the character and the attribute of the first cell, or another byte
    by_cases ha : a = ptr
    · subst ha
      rw [if_neg (by omega), if_pos (by omega), if_pos (by omega),
        Function.update_of_ne (by omega), Function.update_self]
    · by_cases ha' : a = ptr + 1
      · subst ha'
        rw [if_neg (by omega), if_pos (by omega), if_neg (by omega), Function.update_self]
      · rw [Function.update_of_ne ha', Function.update_of_ne ha]
        split_ifs <;> first | rfl | omega

theorem addr_eq (x y : ℕ) : addr x y = vgaVidmem + 2 * (80 * y + x) := by
  unfold addr rowAddr vgaBytesPerRow vgaNumcols
  omega

/-- `x86cons_clear_area` blanks `n` cells, if they are on the screen. -/
theorem x86consClearArea_eq {x y n : ℕ} (h : 80 * y + x + n ≤ 2000) :
    ∃ mem, x86consClearArea x y n s = .ok { s with mem } ∧
      ∀ k, cellAt mem k = if 80 * y + x ≤ k ∧ k < 80 * y + x + n then blank s.attr
        else cellAt s.mem k := by
  refine ⟨blanked s.attr (addr x y) n s.mem, ?_, ?_⟩
  · have hbound : y * vgaNumcols + x + n ≤ vgaNumcols * vgaNumrows := by
      unfold vgaNumcols vgaNumrows
      omega
    have hinside : ∀ k < n * 2, Inside (addr x y + k) := by
      intro k hk
      rw [addr_eq, Nat.add_assoc]
      exact inside_of_lt (by omega)
    unfold x86consClearArea
    simp only [Result.require, if_pos hbound, Result.ok_bind, clearLoop_eq s.attr hinside]
    rfl
  · intro k
    simp only [cellAt, blank, blanked, addr_eq]
    split_ifs <;> first | rfl | omega

/-- The rows move up. -/
theorem cellAt_moveRows {rows : ℕ} (h : rows < 25) (mem : Mem) :
    ∃ mem', moveRows rows mem = .ok mem' ∧
      ∀ k, cellAt mem' k = if k < 80 * rows then cellAt mem (k + 80) else cellAt mem k := by
  induction rows with
  | zero => exact ⟨mem, rfl, fun _ => rfl⟩
  | succ rows ih =>
    obtain ⟨mem₁, hmem₁, hcell₁⟩ := ih (by omega)
    -- the row above is on the screen
    have hinside : ∀ k < vgaBytesPerRow, Inside (rowAddr rows + k) := by
      intro k hk
      have hrow : rowAddr rows + k = vgaVidmem + (rows * 160 + k) := by
        unfold rowAddr vgaBytesPerRow vgaNumcols
        omega
      rw [hrow]
      unfold vgaBytesPerRow vgaNumcols at hk
      exact inside_of_lt (by omega)
    refine ⟨memcpy (rowAddr rows) (rowAddr (rows + 1)) vgaBytesPerRow mem₁, ?_, fun k => ?_⟩
    · rw [moveRows, List.range'_concat, List.foldlM_append, Nat.one_mul, Nat.add_comm 1 rows,
        ← moveRows, hmem₁, Result.ok_bind, List.foldlM_cons, Nat.add_sub_cancel,
        memcpyInside_ok hinside, Result.ok_bind]
      rfl
    · have hle : rowAddr rows ≤ rowAddr (rows + 1) := by
        unfold rowAddr vgaBytesPerRow vgaNumcols
        omega
      have hcopy : cellAt (memcpy (rowAddr rows) (rowAddr (rows + 1)) vgaBytesPerRow mem₁) k =
          if 80 * rows ≤ k ∧ k < 80 * (rows + 1) then cellAt mem₁ (k + 80) else cellAt mem₁ k := by
        simp only [cellAt, memcpy_apply (.inl hle)]
        unfold rowAddr vgaBytesPerRow vgaNumcols
        split_ifs <;> first | omega | rfl | (congr 2 <;> omega)
      rw [hcopy, hcell₁, hcell₁]
      split_ifs <;> first | rfl | omega

/-! ## What the functions do to the terminal -/

/-- The cells of a terminal that are blank after `x86cons_clear_area`. -/
def clearFrom (attr : UInt8) (x y n : ℕ) (t : Terminal) : Terminal :=
  { t with cell := fun r c =>
      if 80 * y + x ≤ 80 * r.val + c.val ∧ 80 * r.val + c.val < 80 * y + x + n then blank attr
      else t.cell r c }

theorem x86consClearArea_depicts {x y n : ℕ} (h : Depicts attr s t) (hn : 80 * y + x + n ≤ 2000) :
    ∃ s', x86consClearArea x y n s = .ok s' ∧ Depicts attr s' (clearFrom attr x y n t) ∧
      s'.crt = s.crt := by
  obtain ⟨mem, hok, hcell⟩ := x86consClearArea_eq (s := s) hn
  refine ⟨_, hok, ⟨fun r c => ?_, h.y, h.x, h.attr⟩, rfl⟩
  simp only [hcell, clearFrom, h.cell, h.attr]

/-- The scroll clears an area that begins in column 24 of the first row. -/
theorem x86consScroll_depicts (h : Depicts attr s t) :
    ∃ s', x86consScroll s = .ok s' ∧ Depicts attr s' (displacedScroll attr t) := by
  have hrows : vgaNumrows - 1 < 25 := by decide
  obtain ⟨mem₁, hmoved, hcell₁⟩ := cellAt_moveRows hrows s.mem
  obtain ⟨mem, hok, hcell⟩ := x86consClearArea_eq (x := vgaNumrows - 1) (y := 0) (n := vgaNumcols)
    (s := { s with mem := mem₁ }) (by decide)
  refine ⟨_, Result.bind_eq_ok.mpr ⟨mem₁, hmoved, hok⟩, ⟨fun r c => ?_, h.y, h.x, h.attr⟩⟩
  have hrow : 80 * r.val + c.val < 80 * (vgaNumrows - 1) ↔ r.val + 1 < 25 := by
    unfold vgaNumrows
    omega
  simp only [hcell, hcell₁, displacedScroll, h.attr, hrow]
  refine if_congr (by unfold vgaNumrows vgaNumcols; omega) rfl ?_
  split_ifs with hr
  · have hup := h.cell ⟨r.val + 1, hr⟩ c
    rwa [show 80 * (r.val + 1) + c.val = 80 * r.val + c.val + 80 by omega] at hup
  · exact h.cell r c

/-- The new line is begun from any column, on the screen or not. -/
theorem x86consNewline_depicts (h : Depicts attr { s with x := 0 } { t with col := 0 }) :
    ∃ s', x86consNewline s = .ok s' ∧ Depicts attr s' (newline (displacedScroll attr) t) := by
  have hsy : s.y = t.row := h.y
  unfold x86consNewline newline
  by_cases hr : t.row.val + 1 < 25
  · have hy : ¬s.y = vgaNumrows - 1 := by
      rw [hsy]
      unfold vgaNumrows
      omega
    rw [dif_pos hr]
    exact ⟨_, if_neg hy, h.cell, congrArg (· + 1) hsy, rfl, h.attr⟩
  · have hy : s.y = vgaNumrows - 1 := by
      rw [hsy]
      unfold vgaNumrows
      omega
    rw [dif_neg hr]
    obtain ⟨s', hok, h'⟩ := x86consScroll_depicts h
    exact ⟨s', (if_pos hy).trans hok, h'⟩

theorem store_depicts (h : Depicts attr s t) (ch : ℤ) : ∀ r c,
    cellAt (Function.update (Function.update s.mem (addr s.x s.y) (UInt8.ofInt ch))
      (addr s.x s.y + 1) s.attr) (80 * r.val + c.val) =
      (t.store attr (UInt8.ofInt ch)).cell r c := by
  intro r c
  have hcursor : 80 * r.val + c.val = 80 * s.y + s.x ↔ r = t.row ∧ c = t.col := by
    rw [h.y, h.x, Fin.ext_iff, Fin.ext_iff]
    omega
  by_cases hrc : r = t.row ∧ c = t.col
  · have hk := hcursor.mpr hrc
    simp only [store, if_pos hrc, cellAt, addr_eq, hk, h.attr, Function.update_self]
    rw [Function.update_of_ne (by omega), Function.update_self]
  · have hk := mt hcursor.mp hrc
    simp only [store, if_neg hrc, ← h.cell, cellAt, addr_eq]
    rw [Function.update_of_ne (by omega), Function.update_of_ne (by omega),
      Function.update_of_ne (by omega), Function.update_of_ne (by omega)]

theorem x86consPutgraphic_depicts (h : Depicts attr s t) (ch : ℤ) :
    ∃ s', x86consPutgraphic ch s = .ok s' ∧
      Depicts attr s' (putgraphic attr (displacedScroll attr) (UInt8.ofInt ch) t) := by
  have hcell := store_depicts h ch
  -- the cursor is on the screen, and so are the two bytes of its cell
  have hy := h.y
  have hx := h.x
  have hchar : Inside (addr s.x s.y) := by
    rw [addr_eq]
    exact inside_of_lt (by omega)
  have hattr : Inside (addr s.x s.y + 1) := by
    rw [addr_eq, Nat.add_assoc]
    exact inside_of_lt (by omega)
  rw [x86consPutgraphic, storeByte_ok hchar, Result.ok_bind, storeByte_ok hattr, Result.ok_bind]
  unfold putgraphic
  by_cases hc : t.col.val + 1 < 80
  · have hlast : ¬vgaNumcols ≤ s.x + 1 := by
      unfold vgaNumcols
      omega
    rw [dif_pos hc]
    exact ⟨_, if_neg hlast, hcell, hy, congrArg (· + 1) hx, h.attr⟩
  · have hlast : vgaNumcols ≤ s.x + 1 := by
      unfold vgaNumcols
      omega
    rw [dif_neg hc]
    obtain ⟨s', hok, h'⟩ := x86consNewline_depicts (s := { s with
      mem := Function.update (Function.update s.mem (addr s.x s.y) (UInt8.ofInt ch))
        (addr s.x s.y + 1) s.attr
      x := s.x + 1 }) (t := t.store attr (UInt8.ofInt ch)) ⟨hcell, hy, rfl, h.attr⟩
    exact ⟨s', (if_pos hlast).trans hok, h'⟩

theorem putSpaces_depicts {n : ℕ} (h : Depicts attr s t) :
    ∃ s', putSpaces n s = .ok s' ∧
      Depicts attr s' ((putgraphic attr (displacedScroll attr) 32)^[n] t) := by
  induction n generalizing s t with
  | zero => exact ⟨s, rfl, h⟩
  | succ n ih =>
    obtain ⟨s₁, hok₁, h₁⟩ := x86consPutgraphic_depicts h 32
    obtain ⟨s₂, hok₂, h₂⟩ := ih h₁
    exact ⟨s₂, Result.bind_eq_ok.mpr ⟨s₁, hok₁, hok₂⟩, h₂⟩

theorem x86consCleartoeol_depicts (h : Depicts attr s t) :
    ∃ s', x86consCleartoeol s = .ok s' ∧ Depicts attr s' (t.cleartoeol attr) ∧
      s'.crt = s.crt := by
  have hn : 80 * s.y + s.x + (vgaNumcols - s.x) = 80 * t.row.val + 80 := by
    rw [h.y, h.x]
    unfold vgaNumcols
    omega
  obtain ⟨s', hok, h', hcrt⟩ := x86consClearArea_depicts (x := s.x) (y := s.y)
    (n := vgaNumcols - s.x) h (by omega)
  refine ⟨s', hok, ?_, hcrt⟩
  have harea : clearFrom attr s.x s.y (vgaNumcols - s.x) t = t.cleartoeol attr := by
    refine ext_cells (fun r c => if_congr ?_ rfl rfl) rfl rfl
    rw [hn, h.y, h.x, Fin.ext_iff, Fin.le_def]
    omega
  rwa [harea] at h'

/-- The controller shows the cursor where `struct x86cons` has it. -/
theorem x86consUpdatecurs_shows (h : Depicts attr s t) : Shows attr (x86consUpdatecurs s) t := by
  refine ⟨⟨h.cell, h.y, h.x, h.attr⟩, ?_⟩
  have hlt : s.y * vgaNumcols + s.x < 2000 := by
    rw [h.y, h.x]
    unfold vgaNumcols
    omega
  have hcursor : (x86consUpdatecurs s).crt.cursor = s.y * vgaNumcols + s.x := by
    simp only [Crt.cursor, x86consUpdatecurs, Crt.outAddress, Crt.outData, Function.update_self]
    rw [Function.update_of_ne (by decide), Function.update_self, UInt8.toNat_ofNat',
      UInt8.toNat_ofNat']
    omega
  rw [hcursor, h.y, h.x]
  unfold vgaNumcols
  omega

theorem x86consMovecurs_shows {row col : ℤ} (h : Shows attr s t) :
    Shows attr (x86consMovecurs row col s) (t.movecurs row col) := by
  unfold x86consMovecurs Terminal.movecurs
  have hvalid : ((0 ≤ row ∧ row < (vgaNumrows : ℕ)) ∧ 0 ≤ col ∧ col < (vgaNumcols : ℕ)) ↔
      (0 ≤ row ∧ row < 25) ∧ 0 ≤ col ∧ col < 80 := Iff.rfl
  by_cases hv : (0 ≤ row ∧ row < 25) ∧ 0 ≤ col ∧ col < 80
  · rw [if_pos (hvalid.mpr hv), dif_pos hv]
    exact x86consUpdatecurs_shows ⟨h.cell, rfl, rfl, h.attr⟩
  · rw [if_neg (mt hvalid.mp hv), dif_neg hv]
    exact h

/-- After `x86cons_clear`, whatever the state was. -/
theorem x86consClear_shows : ∃ s', x86consClear s = .ok s' ∧ Shows s.attr s' (cleared s.attr) := by
  obtain ⟨mem, hok, hcell⟩ := x86consClearArea_eq (s := s) (x := 0) (y := 0)
    (n := vgaNumrows * vgaNumcols) (by decide)
  refine ⟨_, Result.bind_eq_ok.mpr ⟨_, hok, rfl⟩, ?_⟩
  refine x86consUpdatecurs_shows ⟨fun r c => ?_, rfl, rfl, rfl⟩
  simp only [hcell]
  rw [if_pos (by unfold vgaNumrows vgaNumcols; omega)]
  rfl

theorem x86consPutchar_shows {ch : ℤ} (h : Depicts attr s t) :
    ∃ s', x86consPutchar ch s = .ok s' ∧
      Shows attr s' (t.putchar attr (displacedScroll attr) ch) := by
  suffices hput : ∃ s', (if ch = 9 then putSpaces (8 - s.x % consTabsize) s
      else if ch = 10 then x86consCleartoeol s >>= x86consNewline
      else x86consPutgraphic ch s) = .ok s' ∧
      Depicts attr s' (t.putchar attr (displacedScroll attr) ch) by
    obtain ⟨s', hok, h'⟩ := hput
    exact ⟨_, Result.bind_eq_ok.mpr ⟨s', hok, rfl⟩, x86consUpdatecurs_shows h'⟩
  unfold Terminal.putchar
  split_ifs
  · rw [h.x]
    exact putSpaces_depicts h
  · obtain ⟨s₁, hok₁, h₁, -⟩ := x86consCleartoeol_depicts h
    obtain ⟨s₂, hok₂, h₂⟩ := x86consNewline_depicts
      (s := s₁) (t := t.cleartoeol attr) ⟨h₁.cell, h₁.y, rfl, h₁.attr⟩
    exact ⟨s₂, Result.bind_eq_ok.mpr ⟨s₁, hok₁, hok₂⟩, h₂⟩
  · exact x86consPutgraphic_depicts h _

/-- Every operation does what it does on the terminal with the displaced scroll. -/
theorem exec_shows (h : Shows attr s t) (op : Op) :
    ∃ s', exec s op = .ok s' ∧ Shows attr s' (t.exec attr (displacedScroll attr) op) := by
  cases op with
  | clear =>
    have hattr := h.attr
    subst hattr
    exact x86consClear_shows
  | movecurs row col => exact ⟨_, rfl, x86consMovecurs_shows h⟩
  | putchar ch => exact x86consPutchar_shows h.toDepicts
  | cleartoeol =>
    obtain ⟨s', hok, h', hcrt⟩ := x86consCleartoeol_depicts h.toDepicts
    refine ⟨s', hok, h', ?_⟩
    rw [hcrt]
    exact h.cursor

/-! ## Runs -/

/-- Operations one after the other. -/
def run (s : X86cons) (ops : List Op) : Except ConsoleFault X86cons := ops.foldlM exec s

/-- Calls one after the other. -/
def runCalls (s : X86cons) (calls : List Call) : Except ConsoleFault X86cons :=
  calls.foldlM Call.exec s

/-- After `x86cons_clear` and the operations, the console shows a terminal that scrolls up. -/
def Agrees (s : X86cons) (ops : List Op) : Prop :=
  ∃ s', run s (.clear :: ops) = .ok s' ∧
    Shows s.attr s' ((cleared s.attr).run s.attr (scrollUp s.attr) ops)

theorem run_shows (h : Shows attr s t) (ops : List Op) :
    ∃ s', run s ops = .ok s' ∧ Shows attr s' (t.run attr (displacedScroll attr) ops) := by
  induction ops generalizing s t with
  | nil => exact ⟨s, rfl, h⟩
  | cons op ops ih =>
    obtain ⟨s₁, hok₁, h₁⟩ := exec_shows h op
    obtain ⟨s₂, hok₂, h₂⟩ := ih h₁
    exact ⟨s₂, by rw [run, List.foldlM_cons, hok₁]; exact hok₂, h₂⟩

/-- After `x86cons_clear` no assertion fails, and the console shows the terminal with the displaced
scroll. -/
theorem run_clear_shows (s : X86cons) (ops : List Op) : ∃ s', run s (.clear :: ops) = .ok s' ∧
    Shows s.attr s' ((cleared s.attr).run s.attr (displacedScroll s.attr) ops) := by
  obtain ⟨s₁, hok₁, h₁⟩ := x86consClear_shows (s := s)
  obtain ⟨s₂, hok₂, h₂⟩ := run_shows h₁ ops
  exact ⟨s₂, by rw [run, List.foldlM_cons, exec, hok₁]; exact hok₂, h₂⟩

/-- A console depicts one terminal. -/
theorem Depicts.unique (h : Depicts attr s t) (h' : Depicts attr s t') : t = t' :=
  ext_cells (fun r c => (h.cell r c).symm.trans (h'.cell r c)) (Fin.ext (h.y.symm.trans h'.y))
    (Fin.ext (h.x.symm.trans h'.x))

theorem agrees_iff {ops : List Op} : Agrees s ops ↔
    (cleared s.attr).run s.attr (scrollUp s.attr) ops =
      (cleared s.attr).run s.attr (displacedScroll s.attr) ops := by
  obtain ⟨s', hok, h⟩ := run_clear_shows s ops
  constructor
  · rintro ⟨s'', hok', h'⟩
    obtain rfl : s' = s'' := Except.ok.inj (hok.symm.trans hok')
    exact h'.unique h.toDepicts
  · intro heq
    exact ⟨s', hok, heq ▸ h⟩

/-- Writing a string is putting its characters. -/
theorem x86consWrite_eq (str : List ℤ) (s : X86cons) :
    x86consWrite str s = run s (Call.write str).ops := by
  induction str generalizing s with
  | nil => rfl
  | cons ch str ih =>
    by_cases hch : ch = 0
    · rw [x86consWrite, if_pos hch, Call.ops, List.takeWhile_cons_of_neg (by simpa using hch)]
      rfl
    · rw [x86consWrite, if_neg hch, Call.ops, List.takeWhile_cons_of_pos (by simpa using hch),
        List.map_cons, run, List.foldlM_cons, exec]
      exact congrArg _ (funext ih)

theorem runCalls_eq (calls : List Call) (s : X86cons) :
    runCalls s calls = run s (calls.flatMap Call.ops) := by
  induction calls generalizing s with
  | nil => rfl
  | cons call calls ih =>
    have hexec : call.exec s = run s call.ops := by
      cases call with
      | op o => exact (bind_pure _).symm
      | write str => exact x86consWrite_eq str s
    rw [runCalls, List.foldlM_cons, List.flatMap_cons, run, List.foldlM_append, hexec]
    exact congrArg _ (funext ih)

/-- Calls after `x86cons_clear` are the operations of these calls, and the console agrees with a
terminal that scrolls up after every one of them if and only if each operation is harmless where it
comes: where it moves past the last row, this row is blank and so are the cells from column 24 of
the second row to column 23 of the third one. -/
theorem agrees_iff_harmless (s : X86cons) (calls : List Call) :
    runCalls s (.op .clear :: calls) = run s (.clear :: calls.flatMap Call.ops) ∧
      ((∀ ops, ops <+: calls.flatMap Call.ops → Agrees s ops) ↔
        ∀ ops op, ops ++ [op] <+: calls.flatMap Call.ops →
          Harmless s.attr ((cleared s.attr).run s.attr (scrollUp s.attr) ops) op) := by
  refine ⟨runCalls_eq .., ?_⟩
  rw [← run_scrollUp_eq_iff]
  exact forall_congr' fun ops => imp_congr_right fun _ => agrees_iff

/-- The console as it is initialised, with the default attribute. -/
def powerOn : X86cons where
  mem _ := 0
  crt := ⟨0, fun _ => 0⟩
  y := 0
  x := 0
  attr := 7

/-- A character on the last row is still there after the scroll, and one on the second row is lost
when it should have moved up to the first. -/
theorem not_agrees_scroll :
    ¬Agrees powerOn [.movecurs 24 0, .putchar 65, .putchar 10] ∧
      ¬Agrees powerOn [.movecurs 1 30, .putchar 65, .movecurs 24 0, .putchar 10] := by
  refine ⟨fun h => ?_, fun h => ?_⟩
  · have hcell := congrArg (fun t => t.cell 24 0) (agrees_iff.mp h)
    revert hcell
    decide
  · have hcell := congrArg (fun t => t.cell 0 30) (agrees_iff.mp h)
    revert hcell
    decide

end GeekOS.Console
