import Mathlib.Data.Nat.Notation
import Mathlib.Tactic.Common

/-!
# Scan codes

`x86_keyb.c` between the byte that `keyboard_int_handler` reads and the key code that it puts into
the buffer: the two tables, the state of the modifier keys, and the flags of a key code.

* `modifierOf_tables`: the two tables agree on every modifier key;
* `formatKeycode_flags`: which key a key code is of, and which flags it has;
* `processKey_modifier`, `processKey_key`, `processKey_unknown`: what becomes of a byte;
* `processKey_flag`: what it does to the flag of a modifier key.
-/

namespace GeekOS.Keyboard

/-! ## Key codes -/

/-- `KEY_SPECIAL_FLAG`. -/
def keySpecialFlag : BitVec 16 := 0x0100

/-- `KEY_KEYPAD_FLAG`. -/
def keyKeypadFlag : BitVec 16 := 0x0200

/-- `KEYPAD_START`. -/
def keypadStart : BitVec 16 := 128

/-- `_SPECIAL`. -/
def special (num : BitVec 16) : BitVec 16 := keySpecialFlag ||| num

/-- `_KEYPAD`. -/
def keypad (num : BitVec 16) : BitVec 16 := keyKeypadFlag ||| keySpecialFlag ||| (num + keypadStart)

/-- The code of a character. -/
def ascii (c : Char) : BitVec 16 := BitVec.ofNat 16 c.toNat

/-- The characters that the tables have without a plain literal. -/
def asciiEsc : BitVec 16 := 0x1B
@[inherit_doc asciiEsc] def asciiBs : BitVec 16 := 0x08
@[inherit_doc asciiEsc] def asciiTab : BitVec 16 := 0x09
@[inherit_doc asciiEsc] def asciiCr : BitVec 16 := 0x0D
@[inherit_doc asciiEsc] def asciiDoubleQuote : BitVec 16 := 0x22
@[inherit_doc asciiEsc] def asciiQuote : BitVec 16 := 0x27
@[inherit_doc asciiEsc] def asciiBackslash : BitVec 16 := 0x5C
@[inherit_doc asciiEsc] def asciiGrave : BitVec 16 := 0x60

/-- The special keys of `keyboard.h`. -/
def keyUnknown : BitVec 16 := special 0
@[inherit_doc keyUnknown] def keyF1 : BitVec 16 := special 1
@[inherit_doc keyUnknown] def keyF2 : BitVec 16 := special 2
@[inherit_doc keyUnknown] def keyF3 : BitVec 16 := special 3
@[inherit_doc keyUnknown] def keyF4 : BitVec 16 := special 4
@[inherit_doc keyUnknown] def keyF5 : BitVec 16 := special 5
@[inherit_doc keyUnknown] def keyF6 : BitVec 16 := special 6
@[inherit_doc keyUnknown] def keyF7 : BitVec 16 := special 7
@[inherit_doc keyUnknown] def keyF8 : BitVec 16 := special 8
@[inherit_doc keyUnknown] def keyF9 : BitVec 16 := special 9
@[inherit_doc keyUnknown] def keyF10 : BitVec 16 := special 10
@[inherit_doc keyUnknown] def keyLctrl : BitVec 16 := special 13
@[inherit_doc keyUnknown] def keyRctrl : BitVec 16 := special 14
@[inherit_doc keyUnknown] def keyLshift : BitVec 16 := special 15
@[inherit_doc keyUnknown] def keyRshift : BitVec 16 := special 16
@[inherit_doc keyUnknown] def keyLalt : BitVec 16 := special 17
@[inherit_doc keyUnknown] def keyRalt : BitVec 16 := special 18
@[inherit_doc keyUnknown] def keyPrintscrn : BitVec 16 := special 19
@[inherit_doc keyUnknown] def keyCapslock : BitVec 16 := special 20
@[inherit_doc keyUnknown] def keyNumlock : BitVec 16 := special 21
@[inherit_doc keyUnknown] def keyScrlock : BitVec 16 := special 22
@[inherit_doc keyUnknown] def keySysreq : BitVec 16 := special 23

/-- The keys of the keypad. -/
def keyKphome : BitVec 16 := keypad 0
@[inherit_doc keyKphome] def keyKpup : BitVec 16 := keypad 1
@[inherit_doc keyKphome] def keyKppgup : BitVec 16 := keypad 2
@[inherit_doc keyKphome] def keyKpminus : BitVec 16 := keypad 3
@[inherit_doc keyKphome] def keyKpleft : BitVec 16 := keypad 4
@[inherit_doc keyKphome] def keyKpcenter : BitVec 16 := keypad 5
@[inherit_doc keyKphome] def keyKpright : BitVec 16 := keypad 6
@[inherit_doc keyKphome] def keyKpplus : BitVec 16 := keypad 7
@[inherit_doc keyKphome] def keyKpend : BitVec 16 := keypad 8
@[inherit_doc keyKphome] def keyKpdown : BitVec 16 := keypad 9
@[inherit_doc keyKphome] def keyKppgdn : BitVec 16 := keypad 10
@[inherit_doc keyKphome] def keyKpinsert : BitVec 16 := keypad 11
@[inherit_doc keyKphome] def keyKpdel : BitVec 16 := keypad 12

/-- `s_scan_table_no_shift`. -/
def sScanTableNoShift : List (BitVec 16) :=
  [keyUnknown, asciiEsc, ascii '1', ascii '2', ascii '3', ascii '4', ascii '5', ascii '6',
    ascii '7', ascii '8', ascii '9', ascii '0', ascii '-', ascii '=', asciiBs, asciiTab,
    ascii 'q', ascii 'w', ascii 'e', ascii 'r', ascii 't', ascii 'y', ascii 'u', ascii 'i',
    ascii 'o', ascii 'p', ascii '[', ascii ']', asciiCr, keyLctrl, ascii 'a', ascii 's',
    ascii 'd', ascii 'f', ascii 'g', ascii 'h', ascii 'j', ascii 'k', ascii 'l', ascii ';',
    asciiQuote, asciiGrave, keyLshift, asciiBackslash, ascii 'z', ascii 'x', ascii 'c', ascii 'v',
    ascii 'b', ascii 'n', ascii 'm', ascii ',', ascii '.', ascii '/', keyRshift, keyPrintscrn,
    keyLalt, ascii ' ', keyCapslock, keyF1, keyF2, keyF3, keyF4, keyF5,
    keyF6, keyF7, keyF8, keyF9, keyF10, keyNumlock, keyScrlock, keyKphome,
    keyKpup, keyKppgup, keyKpminus, keyKpleft, keyKpcenter, keyKpright, keyKpplus, keyKpend,
    keyKpdown, keyKppgdn, keyKpinsert, keyKpdel, keySysreq, keyUnknown, keyUnknown, keyUnknown,
    keyUnknown, keyUnknown, keyUnknown]

/-- `s_scan_table_with_shift`. -/
def sScanTableWithShift : List (BitVec 16) :=
  [keyUnknown, asciiEsc, ascii '!', ascii '@', ascii '#', ascii '$', ascii '%', ascii '^',
    ascii '&', ascii '*', ascii '(', ascii ')', ascii '_', ascii '+', asciiBs, asciiTab,
    ascii 'Q', ascii 'W', ascii 'E', ascii 'R', ascii 'T', ascii 'Y', ascii 'U', ascii 'I',
    ascii 'O', ascii 'P', ascii '{', ascii '}', asciiCr, keyLctrl, ascii 'A', ascii 'S',
    ascii 'D', ascii 'F', ascii 'G', ascii 'H', ascii 'J', ascii 'K', ascii 'L', ascii ':',
    asciiDoubleQuote, ascii '~', keyLshift, ascii '|', ascii 'Z', ascii 'X', ascii 'C', ascii 'V',
    ascii 'B', ascii 'N', ascii 'M', ascii '<', ascii '>', ascii '?', keyRshift, keyPrintscrn,
    keyLalt, ascii ' ', keyCapslock, keyF1, keyF2, keyF3, keyF4, keyF5,
    keyF6, keyF7, keyF8, keyF9, keyF10, keyNumlock, keyScrlock, keyKphome,
    keyKpup, keyKppgup, keyKpminus, keyKpleft, keyKpcenter, keyKpright, keyKpplus, keyKpend,
    keyKpdown, keyKppgdn, keyKpinsert, keyKpdel, keySysreq, keyUnknown, keyUnknown, keyUnknown,
    keyUnknown, keyUnknown, keyUnknown]

/-- `SCAN_TABLE_SIZE`. -/
def scanTableSize : ℕ := sScanTableNoShift.length

/-! ## Modifier keys -/

/-- The keys that `keyboard_int_handler` keeps the state of. -/
inductive Modifier
  | lshift | rshift | lctrl | rctrl | lalt | ralt
  deriving DecidableEq, Repr

/-- The key code of a modifier key. -/
def Modifier.key : Modifier → BitVec 16
  | lshift => keyLshift
  | rshift => keyRshift
  | lctrl => keyLctrl
  | rctrl => keyRctrl
  | lalt => keyLalt
  | ralt => keyRalt

/-- Its flag in `s_shiftstate`: `LEFT_SHIFT`, `RIGHT_SHIFT`, `LEFT_CTRL`, `RIGHT_CTRL`, `LEFT_ALT`
or `RIGHT_ALT`. -/
def Modifier.flag : Modifier → BitVec 32
  | lshift => 0x01
  | rshift => 0x02
  | lctrl => 0x04
  | rctrl => 0x08
  | lalt => 0x10
  | ralt => 0x20

/-- `SHIFT_MASK`. -/
def shiftMask : BitVec 32 := Modifier.lshift.flag ||| Modifier.rshift.flag

/-- `CTRL_MASK`. -/
def ctrlMask : BitVec 32 := Modifier.lctrl.flag ||| Modifier.rctrl.flag

/-- `ALT_MASK`. -/
def altMask : BitVec 32 := Modifier.lalt.flag ||| Modifier.ralt.flag

/-- The `switch` of `keyboard_int_handler`. -/
def modifierOf (keycode : BitVec 16) : Option Modifier :=
  if keycode = keyLshift then some .lshift
  else if keycode = keyRshift then some .rshift
  else if keycode = keyLctrl then some .lctrl
  else if keycode = keyRctrl then some .rctrl
  else if keycode = keyLalt then some .lalt
  else if keycode = keyRalt then some .ralt
  else none

/-! ## A byte of the keyboard -/

/-- `KB_KEY_RELEASE`. -/
def kbKeyRelease : BitVec 8 := 0x80

/-- `KEY_ESCAPE`. -/
def keyEscape : BitVec 8 := 0xE0

/-- `KEY_SHIFT_FLAG`. -/
def keyShiftFlag : BitVec 16 := 0x1000

/-- `KEY_ALT_FLAG`. -/
def keyAltFlag : BitVec 16 := 0x2000

/-- `KEY_CTRL_FLAG`. -/
def keyCtrlFlag : BitVec 16 := 0x4000

/-- `KEY_RELEASE_FLAG`. -/
def keyReleaseFlag : BitVec 16 := 0x8000

/-- The key code with the flags behind the label `noflagchange`. -/
def formatKeycode (keycode : BitVec 16) (shift : Bool) (shiftstate : BitVec 32) (release : Bool) :
    BitVec 16 :=
  let keycode := if shift then keycode ||| keyShiftFlag else keycode
  let keycode := if shiftstate &&& ctrlMask ≠ 0 then keycode ||| keyCtrlFlag else keycode
  let keycode := if shiftstate &&& altMask ≠ 0 then keycode ||| keyAltFlag else keycode
  if release then keycode ||| keyReleaseFlag else keycode

/-- `s_shiftstate` behind the press or the release of a modifier key. -/
def setFlag (m : Modifier) (release : Bool) (shiftstate : BitVec 32) : BitVec 32 :=
  if release then shiftstate &&& ~~~m.flag else shiftstate ||| m.flag

/-- What `keyboard_int_handler` does with a byte that it has read: `s_shiftstate`, and the key code
for the buffer if there is one. -/
def processKey (scanCode : BitVec 8) (shiftstate : BitVec 32) : BitVec 32 × Option (BitVec 16) :=
  if scanCode = keyEscape then (shiftstate, none)
  else
    let release : Bool := scanCode &&& kbKeyRelease ≠ 0
    let scanCode := if release then scanCode &&& ~~~kbKeyRelease else scanCode
    if scanTableSize ≤ scanCode.toNat then (shiftstate, none)
    else
      -- the table is that for the shift keys as they are before this byte
      let shift : Bool := shiftstate &&& shiftMask ≠ 0
      let keycode :=
        if shift then sScanTableWithShift.getD scanCode.toNat 0
        else sScanTableNoShift.getD scanCode.toNat 0
      match modifierOf keycode with
      | some m => (setFlag m release shiftstate, none)
      | none => (shiftstate, some (formatKeycode keycode shift shiftstate release))

/-! ## Flags -/

section Flags

variable {w : ℕ} {p : Prop} [Decidable p] {a f g : BitVec w}

theorem ite_or_and :
    (if p then a ||| f else a) &&& g = (a &&& g) ||| (if p then f &&& g else 0) := by
  split_ifs
  · exact BitVec.and_or_distrib_right
  · simp

theorem or_ite_eq_zero : (a ||| if p then f else 0) = 0 ↔ a = 0 ∧ (p → f = 0) := by
  by_cases hp : p <;> simp [hp, BitVec.or_eq_zero_iff]

/-- One of two flags is set. -/
theorem and_or_ne_zero {x : BitVec w} : x &&& (f ||| g) ≠ 0 ↔ x &&& f ≠ 0 ∨ x &&& g ≠ 0 := by
  rw [BitVec.and_or_distrib_left, ← not_and_or]
  exact not_congr BitVec.or_eq_zero_iff

end Flags

section State

variable {m m' : Modifier} {release : Bool} {shiftstate : BitVec 32}

theorem flag_and (m m' : Modifier) : m.flag &&& m'.flag = if m = m' then m.flag else 0 := by
  cases m <;> cases m' <;> decide

theorem not_flag_and (m m' : Modifier) : ~~~m.flag &&& m'.flag = if m = m' then 0 else m'.flag := by
  cases m <;> cases m' <;> decide

/-- The press or the release of a modifier key leaves the other modifier keys as they are. -/
theorem holds_setFlag : setFlag m release shiftstate &&& m'.flag ≠ 0 ↔
    if m = m' then release = false else shiftstate &&& m'.flag ≠ 0 := by
  have hflag : m.flag ≠ 0 := by cases m <;> decide
  unfold setFlag
  cases release with
  | false =>
    rw [if_neg Bool.false_ne_true, BitVec.and_or_distrib_right, flag_and]
    by_cases hm : m = m'
    · rw [if_pos hm, if_pos hm]
      exact iff_of_true (fun hzero => hflag (BitVec.or_eq_zero_iff.mp hzero).2) rfl
    · simp [hm]
  | true =>
    rw [if_pos rfl, BitVec.and_assoc, not_flag_and]
    by_cases hm : m = m' <;> simp [hm]

end State

section Format

variable {keycode : BitVec 16} {shift release : Bool} {shiftstate : BitVec 32}

/-- A flag of a key code comes from the key or from one of the conditions. -/
theorem formatKeycode_and_eq_zero {g : BitVec 16} :
    formatKeycode keycode shift shiftstate release &&& g = 0 ↔
      (((keycode &&& g = 0 ∧ (shift = true → keyShiftFlag &&& g = 0)) ∧
        (shiftstate &&& ctrlMask ≠ 0 → keyCtrlFlag &&& g = 0)) ∧
        (shiftstate &&& altMask ≠ 0 → keyAltFlag &&& g = 0)) ∧
        (release = true → keyReleaseFlag &&& g = 0) := by
  simp only [formatKeycode, ite_or_and, or_ite_eq_zero]

/-- A key code is of the key, and has the flags, that it has been made of. -/
theorem formatKeycode_flags (h : keycode &&& 0x0fff = keycode) :
    formatKeycode keycode shift shiftstate release &&& 0x0fff = keycode ∧
    (formatKeycode keycode shift shiftstate release &&& keyShiftFlag ≠ 0 ↔ shift = true) ∧
    (formatKeycode keycode shift shiftstate release &&& keyCtrlFlag ≠ 0 ↔
      shiftstate &&& ctrlMask ≠ 0) ∧
    (formatKeycode keycode shift shiftstate release &&& keyAltFlag ≠ 0 ↔
      shiftstate &&& altMask ≠ 0) ∧
    (formatKeycode keycode shift shiftstate release &&& keyReleaseFlag ≠ 0 ↔ release = true) := by
  -- the flags are not among the bits of a key
  have hnone : ∀ f : BitVec 16, f &&& 0x0fff = 0 → keycode &&& f = 0 := by
    intro f hf
    rw [← h, BitVec.and_assoc, BitVec.and_comm 0x0fff f, hf]
    exact BitVec.and_zero
  have hs : keyShiftFlag &&& 0x0fff = 0 := rfl
  have hc : keyCtrlFlag &&& 0x0fff = 0 := rfl
  have ha : keyAltFlag &&& 0x0fff = 0 := rfl
  have hr : keyReleaseFlag &&& 0x0fff = 0 := rfl
  refine ⟨?_, ?_, ?_, ?_, ?_⟩
  · simp only [formatKeycode, ite_or_and, h, hs, hc, ha, hr, ite_self]
    simp
  -- each flag comes from its own condition only, as the flags are different bits
  all_goals
    rw [Ne, formatKeycode_and_eq_zero]
    simp +decide [hnone _ hs, hnone _ hc, hnone _ ha, hnone _ hr]

end Format

/-! ## What becomes of a byte -/

/-- The place of a byte in the tables. -/
def scanIndex (b : BitVec 8) : ℕ := (b &&& ~~~kbKeyRelease).toNat

/-- The byte is a press or a release of the modifier key. -/
def Modifier.IsFor (m : Modifier) (b : BitVec 8) : Prop :=
  sScanTableNoShift[scanIndex b]? = some m.key

instance (m : Modifier) (b : BitVec 8) : Decidable (m.IsFor b) :=
  inferInstanceAs (Decidable (_ = _))

/-- The key of a byte. -/
def scanKey (shift : Bool) (b : BitVec 8) : BitVec 16 :=
  (if shift then sScanTableWithShift else sScanTableNoShift).getD (scanIndex b) 0

theorem modifierOf_eq_some {k : BitVec 16} {m : Modifier} : modifierOf k = some m ↔ k = m.key := by
  constructor
  · intro h
    unfold modifierOf at h
    split_ifs at h <;> cases h <;> assumption
  · rintro rfl
    cases m <;> decide

/-- The two tables agree on every modifier key. -/
theorem modifierOf_tables : ∀ i < scanTableSize,
    modifierOf (sScanTableWithShift.getD i 0) = modifierOf (sScanTableNoShift.getD i 0) := by
  decide +kernel

/-- No key code in the tables has one of the flags. -/
theorem tables_flags : ∀ i < scanTableSize,
    sScanTableNoShift.getD i 0 &&& 0x0fff = sScanTableNoShift.getD i 0 ∧
      sScanTableWithShift.getD i 0 &&& 0x0fff = sScanTableWithShift.getD i 0 := by
  decide +kernel

variable {b : BitVec 8} {m : Modifier} {shift : Bool} {shiftstate : BitVec 32}

theorem scanKey_flags (h : scanIndex b < scanTableSize) :
    scanKey shift b &&& 0x0fff = scanKey shift b := by
  obtain ⟨hno, hwith⟩ := tables_flags _ h
  cases shift with
  | false => exact hno
  | true => exact hwith

theorem modifierOf_scanKey (shift : Bool) (h : scanIndex b < scanTableSize) :
    modifierOf (scanKey shift b) = some m ↔ m.IsFor b := by
  have hsome : modifierOf (scanKey shift b) =
      modifierOf (sScanTableNoShift.getD (scanIndex b) 0) := by
    cases shift with
    | false => rfl
    | true => exact modifierOf_tables _ h
  have hlt : scanIndex b < sScanTableNoShift.length := h
  rw [hsome, modifierOf_eq_some, Modifier.IsFor, List.getElem?_eq_getElem hlt, Option.some.injEq,
    List.getD_eq_getElem?_getD, List.getElem?_eq_getElem hlt, Option.getD_some]

/-- A byte of a modifier key is one of the tables. -/
theorem Modifier.IsFor.lt (h : m.IsFor b) : scanIndex b < scanTableSize :=
  (List.getElem?_eq_some_iff.mp h).1

theorem and_not_release : ∀ b : BitVec 8, b &&& kbKeyRelease = 0 → b &&& ~~~kbKeyRelease = b := by
  decide

theorem processKey_eq (hb : b ≠ keyEscape) : processKey b shiftstate =
    if scanTableSize ≤ scanIndex b then (shiftstate, none)
    else match modifierOf (scanKey (shiftstate &&& shiftMask ≠ 0) b) with
      | some m => (setFlag m (b &&& kbKeyRelease ≠ 0) shiftstate, none)
      | none => (shiftstate, some (formatKeycode (scanKey (shiftstate &&& shiftMask ≠ 0) b)
          (shiftstate &&& shiftMask ≠ 0) shiftstate (b &&& kbKeyRelease ≠ 0))) := by
  have hindex : (if (b &&& kbKeyRelease ≠ 0 : Bool) then b &&& ~~~kbKeyRelease else b).toNat =
      scanIndex b := by
    split_ifs with hrelease
    · rfl
    · rw [scanIndex, and_not_release b (by simpa using hrelease)]
  rw [processKey, if_neg hb]
  dsimp only
  rw [hindex]
  have hkey : (if (shiftstate &&& shiftMask ≠ 0 : Bool) then
      sScanTableWithShift.getD (scanIndex b) 0 else sScanTableNoShift.getD (scanIndex b) 0) =
      scanKey (shiftstate &&& shiftMask ≠ 0) b := by
    rw [scanKey]
    split_ifs <;> rfl
  rw [hkey]

theorem processKey_modifier (h : m.IsFor b) :
    processKey b shiftstate = (setFlag m (b &&& kbKeyRelease ≠ 0) shiftstate, none) := by
  -- the escape byte without its release bit is behind the tables
  have hne : b ≠ keyEscape := by
    rintro rfl
    exact absurd h.lt (by decide)
  rw [processKey_eq hne, if_neg (Nat.not_le.mpr h.lt), (modifierOf_scanKey _ h.lt).mpr h]

theorem processKey_key (hb : b ≠ keyEscape) (hlt : scanIndex b < scanTableSize)
    (hm : ∀ m : Modifier, ¬m.IsFor b) : processKey b shiftstate =
      (shiftstate, some (formatKeycode (scanKey (shiftstate &&& shiftMask ≠ 0) b)
        (shiftstate &&& shiftMask ≠ 0) shiftstate (b &&& kbKeyRelease ≠ 0))) := by
  have hnone : modifierOf (scanKey (shiftstate &&& shiftMask ≠ 0) b) = none :=
    Option.eq_none_iff_forall_not_mem.mpr fun m hmem => hm m ((modifierOf_scanKey _ hlt).mp hmem)
  rw [processKey_eq hb, if_neg (Nat.not_le.mpr hlt), hnone]

theorem processKey_unknown (h : b = keyEscape ∨ scanTableSize ≤ scanIndex b) :
    processKey b shiftstate = (shiftstate, none) := by
  by_cases hb : b = keyEscape
  · rw [processKey, if_pos hb]
  · rw [processKey_eq hb, if_pos (h.resolve_left hb)]

/-- Two modifier keys have no byte in common. -/
theorem Modifier.IsFor.unique {m' : Modifier} (h : m.IsFor b) (h' : m'.IsFor b) : m = m' := by
  have hm := (modifierOf_scanKey false h.lt).mpr h
  have hm' := (modifierOf_scanKey false h.lt).mpr h'
  exact Option.some.inj (hm.symm.trans hm')

/-- A byte of a modifier key sets or clears its flag, and no other byte changes it. -/
theorem processKey_flag : (processKey b shiftstate).1 &&& m.flag ≠ 0 ↔
    if m.IsFor b then b &&& kbKeyRelease = 0 else shiftstate &&& m.flag ≠ 0 := by
  by_cases hm : ∃ m₀ : Modifier, m₀.IsFor b
  · obtain ⟨m₀, hm₀⟩ := hm
    rw [processKey_modifier hm₀]
    dsimp only
    rw [holds_setFlag]
    by_cases heq : m₀ = m
    · subst heq
      simp [hm₀]
    · rw [if_neg heq, if_neg fun h => heq (hm₀.unique h)]
  · -- a byte for another key, or one that is not in the tables
    have hsame : (processKey b shiftstate).1 = shiftstate := by
      by_cases hknown : b = keyEscape ∨ scanTableSize ≤ scanIndex b
      · rw [processKey_unknown hknown]
      · obtain ⟨hb, hlt⟩ := not_or.mp hknown
        rw [processKey_key hb (Nat.not_le.mp hlt) (not_exists.mp hm)]
    rw [hsame, if_neg (not_exists.mp hm m)]

end GeekOS.Keyboard
