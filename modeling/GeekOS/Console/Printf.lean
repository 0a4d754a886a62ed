import GeekOS.Library.Buffer
import GeekOS.Library.Numeral
import GeekOS.Console.Screen

/-!
# Formatted output

`cons_printf` of `cons.c` with `cons_ultoa`, `cons_ltoa` and `cons_ltox`, on a machine whose `int` and
`long` have 32 bits. A pointer to a string is the bytes from there up to the terminator, so that
what is behind the terminator cannot be read, and a store outside of the digit buffer fails.

* `directives`, `expansion`: what a format asks for, and the characters that it stands for;
* `consUltoa_eq`, `consLtoa_eq`, `consLtox_eq`: the digits in the buffer;
* `readable`: numbers can be read back, and are printed in the canonical way;
* `consPrintf_expands`: the console gets the expansion.
-/

namespace GeekOS.Console

open AddressLoop Numeral Buffer

/-- `int`, `long` and the unsigned types. -/
abbrev Word := BitVec 32

/-- `MAXDIGITS`. -/
def maxdigits : ℕ := 39

/-- The size of the digit buffer. -/
def bufsize : ℕ := maxdigits + 2

/-- What goes wrong in `cons_printf`. -/
inductive PrintfFault
  /-- A read behind the terminator of the format. -/
  | pastTerminator
  /-- A store outside of the digit buffer. -/
  | bufferOverflow (i : ℕ)
  /-- The digit buffer has no terminator. -/
  | unterminated
  /-- An index outside of the table of digits. -/
  | outsideTable
  /-- There is no argument, or it has another type. -/
  | badArgument
  /-- The assertions of `int_enable` and `int_disable`. -/
  | badNesting
  deriving DecidableEq, Repr

/-- A string without its terminator. -/
structure CString where
  chars : List Int8
  nonzero : 0 ∉ chars

/-- The bytes of the string. -/
def CString.memory (s : CString) : List Int8 := s.chars ++ [0]

/-- An argument. -/
inductive Arg
  | word (w : Word)
  | str (s : CString)

/-- The digit buffer, the arguments that are left, the interrupt flag, and what the console has
been sent. -/
structure PrintfState where
  buf : ℕ → Int8
  args : List Arg
  intEnabled : Bool
  sent : List Call

/-! ## The digits -/

/-- Store a character into the digit buffer. -/
def storeChar (buf : ℕ → Int8) (i : ℕ) (c : Int8) : Except PrintfFault (ℕ → Int8) := do
  Result.require (i < bufsize) (.bufferOverflow i)
  pure (Function.update buf i c)

/-- The first loop of `cons_ultoa`, with the buffer from `p` on. -/
def generateDigits (buf : ℕ → Int8) (p ndigits value : ℕ) :
    Except PrintfFault ((ℕ → Int8) × ℕ) := do
  let buf ← storeChar buf (p + ndigits) (Int8.ofNat (value % 10 + 48))
  if 0 < value / 10 then generateDigits buf p (ndigits + 1) (value / 10)
  else pure (buf, ndigits + 1)
termination_by value
decreasing_by omega

/-- A round of the second loop. -/
def swapDigits (p ndigits : ℕ) (buf : ℕ → Int8) (i : ℕ) : Except PrintfFault (ℕ → Int8) := do
  let swapPos := ndigits - (i + 1)
  let t := buf (p + i)
  let buf ← storeChar buf (p + i) (buf (p + swapPos))
  storeChar buf (p + swapPos) t

/-- `cons_ultoa`. -/
def consUltoa (buf : ℕ → Int8) (p value : ℕ) : Except PrintfFault (ℕ → Int8) := do
  let (buf, ndigits) ← generateDigits buf p 0 value
  let buf ← forAddress 0 (ndigits / 2) 1 (swapDigits p ndigits) buf
  storeChar buf (p + ndigits) 0

/-- `cons_ltoa`. -/
def consLtoa (buf : ℕ → Int8) (value : Word) : Except PrintfFault (ℕ → Int8) :=
  if value.toInt < 0 then do
    let buf ← storeChar buf 0 45
    let raw := -value
    consUltoa buf 1 raw.toNat
  else consUltoa buf 0 value.toNat

/-- `"0123456789ABCDEF"`. -/
def hexTable : List Int8 := [48, 49, 50, 51, 52, 53, 54, 55, 56, 57, 65, 66, 67, 68, 69, 70]

/-- `cons_ltox` from `p` on, for the shifts that are left. -/
def ltoxFrom (value : Word) : List ℕ → (ℕ → Int8) → ℕ → Except PrintfFault (ℕ → Int8)
  | [], buf, p => storeChar buf p 0
  | i :: shifts, buf, p =>
      match hexTable[(value.sshiftRight i &&& 0xF).toNat]? with
      | some c => do
          let buf ← storeChar buf p c
          ltoxFrom value shifts buf (p + 1)
      | none => .error .outsideTable

/-- `cons_ltox`. -/
def consLtox (buf : ℕ → Int8) (value : Word) : Except PrintfFault (ℕ → Int8) :=
  ltoxFrom value [28, 24, 20, 16, 12, 8, 4, 0] buf 0

/-! ## The scanner -/

namespace PrintfState

variable (s : PrintfState)

/-- `int_disable`. -/
def intDisable : Except PrintfFault PrintfState := do
  Result.require (s.intEnabled = true) .badNesting
  pure { s with intEnabled := false }

/-- `int_enable`. -/
def intEnable : Except PrintfFault PrintfState := do
  Result.require (s.intEnabled = false) .badNesting
  pure { s with intEnabled := true }

/-- `int_begin_atomic`. -/
def intBeginAtomic : Except PrintfFault (Bool × PrintfState) := do
  let iflag := s.intEnabled
  let s ← if iflag then s.intDisable else pure s
  pure (iflag, s)

/-- `int_end_atomic`. -/
def intEndAtomic (iflag : Bool) : Except PrintfFault PrintfState :=
  if iflag then s.intEnable else pure s

/-- A call of the console. -/
def send (call : Call) : PrintfState := { s with sent := s.sent ++ [call] }

/-- `cons_putchar`. -/
def consPutchar (ch : ℤ) : Except PrintfFault PrintfState := do
  let (iflag, s) ← s.intBeginAtomic
  (s.send (.op (.putchar ch))).intEndAtomic iflag

/-- `cons_write`. -/
def consWrite (str : List ℤ) : Except PrintfFault PrintfState := do
  let (iflag, s) ← s.intBeginAtomic
  (s.send (.write str)).intEndAtomic iflag

/-- `cons_write(buf)`, which reads up to the terminator. -/
def consWriteBuf : Except PrintfFault PrintfState := do
  let chars := (List.range' 0 bufsize).map s.buf
  Result.require (0 ∈ chars) .unterminated
  s.consWrite (chars.map Int8.toInt)

/-- `va_arg` for `int` and `unsigned`. -/
def vaArgInt : Except PrintfFault (Word × PrintfState) :=
  match s.args with
  | .word w :: args => pure (w, { s with args })
  | _ => .error .badArgument

/-- `va_arg` for `long` and `unsigned long`, which have the same size. -/
def vaArgLong : Except PrintfFault (Word × PrintfState) := s.vaArgInt

/-- The argument of a conversion. -/
def vaArg (isLong : Bool) : Except PrintfFault (Word × PrintfState) :=
  if isLong then s.vaArgLong else s.vaArgInt

/-- `va_arg` for `const char *`. -/
def vaArgStr : Except PrintfFault (CString × PrintfState) :=
  match s.args with
  | .str str :: args => pure (str, { s with args })
  | _ => .error .badArgument

/-- The inner switch. -/
def convert (isLong : Bool) (c : Int8) : Except PrintfFault PrintfState :=
  -- 'd'
  if c = 100 then do
    let (value, s) ← s.vaArg isLong
    let buf ← consLtoa s.buf value
    { s with buf }.consWriteBuf
  -- 'u'
  else if c = 117 then do
    let (value, s) ← s.vaArg isLong
    let buf ← consUltoa s.buf 0 value.toNat
    { s with buf }.consWriteBuf
  -- 'x', 'p'
  else if c = 120 ∨ c = 112 then do
    let (value, s) ← s.vaArg isLong
    let buf ← consLtox s.buf value
    { s with buf }.consWriteBuf
  -- 'c'
  else if c = 99 then do
    let (value, s) ← s.vaArgInt
    s.consPutchar (value &&& 0xFF).toNat
  -- 's'
  else if c = 115 then do
    let (str, s) ← s.vaArgStr
    s.consWrite (str.memory.map Int8.toInt)
  else s.consPutchar c.toInt

end PrintfState

/-- The loop of `cons_printf`, with the format from `fmt` on, up to `done`. -/
def printfLoop : List Int8 → PrintfState → Except PrintfFault PrintfState
  | [], _ => .error .pastTerminator
  | c :: fmt, s =>
      if c = 0 then pure s
      -- '%'
      else if c = 37 then
        match fmt with
        | [] => .error .pastTerminator
        | c :: fmt =>
            if c = 0 then pure s
            -- 'l'
            else if c = 108 then
              match fmt with
              | [] => .error .pastTerminator
              | c :: fmt =>
                  if c = 0 then pure s
                  else do
                    let s ← s.convert true c
                    printfLoop fmt s
            else do
              -- 'p'
              let s ← s.convert (c = 112) c
              printfLoop fmt s
      else do
        let s ← s.consPutchar c.toInt
        printfLoop fmt s

/-- `cons_printf`. -/
def consPrintf (fmt : List Int8) (s : PrintfState) : Except PrintfFault PrintfState := do
  let (iflag, s) ← s.intBeginAtomic
  let s ← printfLoop fmt s
  s.intEndAtomic iflag

/-! ## What a format stands for -/

/-- The conversions of a word. -/
inductive WordConv
  | decimal | unsigned | hex | char
  deriving DecidableEq, Repr

/-- What a part of the format asks for. -/
inductive Directive
  | literal (c : Int8)
  | word (conv : WordConv)
  | string
  deriving DecidableEq, Repr

/-- The directive of a conversion character. -/
def conversion (c : Int8) : Directive :=
  if c = 100 then .word .decimal
  else if c = 117 then .word .unsigned
  else if c = 120 ∨ c = 112 then .word .hex
  else if c = 99 then .word .char
  else if c = 115 then .string
  else .literal c

/-- The directives of a format. -/
def directives : List Int8 → List Directive
  | [] => []
  | c :: fmt =>
      if c = 37 then
        match fmt with
        | [] => []
        | c :: fmt =>
            if c = 108 then
              match fmt with
              | [] => []
              | c :: fmt => conversion c :: directives fmt
            else conversion c :: directives fmt
      else .literal c :: directives fmt

/-- Decimal digits. -/
def digitChars (n : ℕ) : List ℤ := (numeral 10 n).map fun d : ℕ => (d : ℤ) + 48

/-- A decimal number with its sign. -/
def decimalChars (v : ℤ) : List ℤ :=
  if v < 0 then 45 :: digitChars v.natAbs else digitChars v.natAbs

/-- An upper-case hexadecimal digit. -/
def hexChar (d : ℕ) : ℤ := if d < 10 then (d : ℤ) + 48 else (d : ℤ) + 55

/-- Eight hexadecimal digits. -/
def hexChars (w : Word) : List ℤ := (fixed 16 8 w.toNat).map hexChar

/-- What a conversion makes of a word. -/
def WordConv.chars (w : Word) : WordConv → List ℤ
  | .decimal => decimalChars w.toInt
  | .unsigned => digitChars w.toNat
  | .hex => hexChars w
  | .char => [(w.toNat % 256 : ℕ)]

/-- The arguments are those that the directives take, one for each conversion. -/
inductive Matches : List Directive → List Arg → Prop
  | nil : Matches [] []
  | literal {ds : List Directive} {args : List Arg} (c : Int8) :
      Matches ds args → Matches (.literal c :: ds) args
  | word {ds : List Directive} {args : List Arg} (conv : WordConv) (w : Word) :
      Matches ds args → Matches (.word conv :: ds) (.word w :: args)
  | string {ds : List Directive} {args : List Arg} (str : CString) :
      Matches ds args → Matches (.string :: ds) (.str str :: args)

/-- The characters that directives with their arguments stand for. -/
def expansion : List Directive → List Arg → List ℤ
  | .literal c :: ds, args => c.toInt :: expansion ds args
  | .word conv :: ds, .word w :: args => conv.chars w ++ expansion ds args
  | .string :: ds, .str str :: args => str.chars.map Int8.toInt ++ expansion ds args
  | _, _ => []

/-! ## The digits in the buffer -/

/-- A decimal digit as a character. -/
def digitChar (d : ℕ) : Int8 := Int8.ofNat (d + 48)

variable {buf : ℕ → Int8} {p i : ℕ} {c : Int8}

theorem storeChar_ok (h : i < bufsize) (buf : ℕ → Int8) (c : Int8) :
    storeChar buf i c = .ok (Function.update buf i c) := by
  rw [storeChar, Result.require, if_pos h]
  rfl

/-- The digits from the last one to the first one. -/
theorem generateDigits_eq (value : ℕ) : ∀ (buf : ℕ → Int8) (p ndigits : ℕ),
    p + ndigits + (numeral 10 value).length ≤ bufsize →
      generateDigits buf p ndigits value =
        .ok (writeAt buf (p + ndigits) ((numeral 10 value).map digitChar).reverse,
          ndigits + (numeral 10 value).length) := by
  induction value using Nat.strongRecOn with
  | ind value ih =>
    intro buf p ndigits hroom
    rw [generateDigits]
    -- the last digit is generated first
    by_cases hlast : value < 10
    · rw [numeral_of_lt hlast, List.length_singleton] at hroom ⊢
      rw [storeChar_ok (by omega), Result.ok_bind, if_neg (by omega), Nat.mod_eq_of_lt hlast]
      rfl
    · have hmore := numeral_of_le (by decide) (Nat.le_of_not_lt hlast)
      rw [hmore, List.length_append, List.length_singleton] at hroom ⊢
      rw [storeChar_ok (by omega), Result.ok_bind, if_pos (by omega),
        ih (value / 10) (by omega) _ _ _ (by omega), List.map_append, List.map_singleton,
        List.reverse_append, List.reverse_singleton, List.singleton_append, writeAt, ← Nat.add_assoc,
        Nat.add_assoc ndigits, Nat.add_comm 1]
      rfl

theorem swapDigits_ok {n : ℕ} (hn : p + n ≤ bufsize) (hi : i < n) (buf : ℕ → Int8) :
    swapDigits p n buf i = .ok (swap buf (p + i) (p + (n - (i + 1)))) := by
  rw [swapDigits, storeChar_ok (by omega), Result.ok_bind, storeChar_ok (by omega)]
  rfl

/-- `cons_ultoa` stores the decimal digits and a terminator. -/
theorem consUltoa_eq (value : ℕ) (hroom : p + (numeral 10 value).length < bufsize)
    (buf : ℕ → Int8) :
    consUltoa buf p value = .ok (writeAt buf p ((numeral 10 value).map digitChar ++ [0])) := by
  have hlength : ((numeral 10 value).map digitChar).reverse.length = (numeral 10 value).length := by
    rw [List.length_reverse, List.length_map]
  -- the second loop turns the digits around
  have hswap : ∀ (buf : ℕ → Int8),
      forAddress 0 ((numeral 10 value).length / 2) 1 (swapDigits p (numeral 10 value).length) buf =
        .ok ((List.range ((numeral 10 value).length / 2)).foldl (fun buf i =>
          swap buf (p + i) (p + ((numeral 10 value).length - (i + 1)))) buf) := by
    intro buf
    rw [forAddress_eq_foldl fun buf a ha => swapDigits_ok (by omega) ?_ buf]
    · simp [addresses]
    · have hlt := ((mem_addresses (by decide)).mp ha).1
      omega
  rw [consUltoa, generateDigits_eq value buf p 0 (by omega), Result.ok_bind]
  dsimp only
  rw [Nat.zero_add, Nat.add_zero, hswap, Result.ok_bind, storeChar_ok hroom, ← hlength, foldl_swap,
    List.reverse_reverse, writeAt_append, writeAt_singleton, hlength, List.length_map]

/-- The magnitude of a number, that of the most negative one too. -/
theorem toNat_neg_eq {w : Word} (h : w.toInt < 0) : (-w).toNat = w.toInt.natAbs := by
  have hlt := w.isLt
  rw [BitVec.toInt_eq_toNat_cond] at h ⊢
  rw [BitVec.toNat_neg]
  split_ifs at h ⊢ <;> omega

theorem toNat_eq_natAbs {w : Word} (h : ¬w.toInt < 0) : w.toNat = w.toInt.natAbs := by
  have hlt := w.isLt
  rw [BitVec.toInt_eq_toNat_cond] at h ⊢
  split_ifs at h ⊢ <;> omega

/-- A number of 32 bits has ten digits at most. -/
theorem numeral_word_length (w : Word) : (numeral 10 w.toNat).length ≤ 10 := by
  refine numeral_length_le (by decide) (by decide) (Nat.lt_trans w.isLt (by decide))

/-- The characters that `cons_ltoa` stores. -/
def ltoaChars (w : Word) : List Int8 :=
  if w.toInt < 0 then 45 :: (numeral 10 w.toInt.natAbs).map digitChar
  else (numeral 10 w.toInt.natAbs).map digitChar

/-- `cons_ltoa` stores the decimal digits behind the sign. -/
theorem consLtoa_eq (w : Word) (buf : ℕ → Int8) :
    consLtoa buf w = .ok (writeAt buf 0 (ltoaChars w ++ [0])) := by
  unfold consLtoa ltoaChars
  have hbuf : bufsize = 41 := rfl
  split
  next hneg =>
    have hlength := numeral_word_length (-w)
    rw [storeChar_ok (by decide), Result.ok_bind]
    dsimp only
    rw [consUltoa_eq _ (by omega), toNat_neg_eq hneg]
    rfl
  next hpos =>
    have hlength := numeral_word_length w
    rw [consUltoa_eq _ (by omega), toNat_eq_natAbs hpos]

/-- Four bits of a word, whatever its sign is. -/
theorem nibble_eq (w : Word) {i : ℕ} (hi : i ∈ [28, 24, 20, 16, 12, 8, 4, 0]) :
    (w.sshiftRight i &&& 0xF).toNat = w.toNat / 2 ^ i % 16 := by
  have hlt := w.isLt
  have hand : ∀ n : ℕ, n &&& 15 = n % 16 := fun n => Nat.and_two_pow_sub_one_eq_mod n 4
  rw [BitVec.toNat_and, show (0xF : Word).toNat = 15 from rfl, hand, BitVec.toNat_sshiftRight]
  simp only [List.mem_cons, List.not_mem_nil, or_false] at hi
  split
  · simp only [Nat.shiftRight_eq_div_pow]
    rcases hi with rfl | rfl | rfl | rfl | rfl | rfl | rfl | rfl <;> omega
  · rw [Nat.shiftRight_eq_div_pow]

/-- A hexadecimal digit as a character. -/
def hexDigit (d : ℕ) : Int8 := hexTable[d]?.getD 0

theorem hexTable_get {d : ℕ} (h : d < 16) : hexTable[d]? = some (hexDigit d) := by
  have hall : ∀ d < 16, hexTable[d]? = some (hexDigit d) := by decide
  exact hall d h

theorem ltoxFrom_eq (w : Word) (shifts : List ℕ) :
    ∀ (buf : ℕ → Int8) (p : ℕ), p + shifts.length < bufsize →
      (∀ i ∈ shifts, (w.sshiftRight i &&& 0xF).toNat = w.toNat / 2 ^ i % 16) →
        ltoxFrom w shifts buf p =
          .ok (writeAt buf p (shifts.map (fun i => hexDigit (w.toNat / 2 ^ i % 16)) ++ [0])) := by
  induction shifts with
  | nil => exact fun buf p hroom _ => storeChar_ok hroom buf 0
  | cons i shifts ih =>
    intro buf p hroom hshifts
    rw [List.length_cons] at hroom
    rw [ltoxFrom, hshifts i List.mem_cons_self, hexTable_get (Nat.mod_lt _ (by decide))]
    dsimp only
    rw [storeChar_ok (by omega), Result.ok_bind,
      ih _ _ (by omega) fun j hj => hshifts j (List.mem_cons_of_mem _ hj)]
    rfl

/-- `cons_ltox` stores eight digits. -/
theorem consLtox_eq (w : Word) (buf : ℕ → Int8) :
    consLtox buf w = .ok (writeAt buf 0 ((fixed 16 8 w.toNat).map hexDigit ++ [0])) := by
  rw [consLtox, ltoxFrom_eq w _ buf 0 (by decide) fun i hi => nibble_eq w hi]
  congr 3
  simp [fixed, Nat.div_div_eq_div_mul]

/-! ## The characters -/

theorem digitChar_toInt {d : ℕ} (h : d < 10) : (digitChar d).toInt = (d : ℤ) + 48 := by
  have hlt : d + 48 < 2 ^ 7 := by omega
  rw [digitChar, Int8.toInt_ofNat_of_lt hlt]
  rfl

theorem hexDigit_toInt {d : ℕ} (h : d < 16) : (hexDigit d).toInt = hexChar d := by
  have hall : ∀ d < 16, (hexDigit d).toInt = hexChar d := by decide
  exact hall d h

/-- The characters of the decimal digits. -/
theorem digits_toInt (n : ℕ) :
    ((numeral 10 n).map digitChar).map Int8.toInt = digitChars n := by
  rw [List.map_map, digitChars]
  exact List.map_congr_left fun d hd => digitChar_toInt (numeral_lt (by decide) hd)

theorem ltoaChars_toInt (w : Word) : (ltoaChars w).map Int8.toInt = decimalChars w.toInt := by
  unfold ltoaChars decimalChars
  split
  · rw [List.map_cons, digits_toInt]
    rfl
  · rw [digits_toInt]

theorem hexDigits_toInt (w : Word) :
    ((fixed 16 8 w.toNat).map hexDigit).map Int8.toInt = hexChars w := by
  rw [List.map_map, hexChars]
  exact List.map_congr_left fun d hd => hexDigit_toInt (fixed_lt (by decide) hd)

/-- None of the characters is a terminator. -/
theorem zero_not_mem_of_toInt {l : List Int8} (h : (0 : ℤ) ∉ l.map Int8.toInt) : 0 ∉ l := fun hl =>
  h (List.mem_map.mpr ⟨0, hl, rfl⟩)

theorem digitChars_pos {n : ℕ} {ch : ℤ} (h : ch ∈ digitChars n) : 0 < ch := by
  obtain ⟨d, -, rfl⟩ := List.mem_map.mp h
  omega

theorem decimalChars_pos {v ch : ℤ} (h : ch ∈ decimalChars v) : 0 < ch := by
  unfold decimalChars at h
  split at h
  · rcases List.mem_cons.mp h with rfl | h
    · decide
    · exact digitChars_pos h
  · exact digitChars_pos h

theorem hexChars_pos {w : Word} {ch : ℤ} (h : ch ∈ hexChars w) : 0 < ch := by
  obtain ⟨d, -, rfl⟩ := List.mem_map.mp h
  unfold hexChar
  split <;> omega

/-- A string goes to the console up to its terminator. -/
theorem CString.write_ops (str : CString) :
    (Call.write (str.memory.map Int8.toInt)).ops = (str.chars.map Int8.toInt).map Op.putchar := by
  have hchars : ∀ ch ∈ str.chars.map Int8.toInt, ch ≠ 0 := by
    intro ch hch
    obtain ⟨c, hc, rfl⟩ := List.mem_map.mp hch
    intro hzero
    obtain rfl : c = 0 := Int8.toInt_inj.mp hzero
    exact str.nonzero hc
  rw [Call.ops, CString.memory, List.map_append, List.takeWhile_append_of_pos (by simpa using hchars)]
  simp

/-! ## The output -/

namespace PrintfState

variable {s s' : PrintfState} {args rest : List Arg} {out : List ℤ}

/-- The characters have been put on the console, one by one, and nothing else has changed outside of
`cons_printf`. -/
structure Sends (s s' : PrintfState) (out : List ℤ) : Prop where
  intEnabled : s'.intEnabled = s.intEnabled
  sent : s'.sent.flatMap Call.ops = s.sent.flatMap Call.ops ++ out.map Op.putchar

theorem Sends.refl (s : PrintfState) : Sends s s [] := ⟨rfl, by simp⟩

theorem Sends.trans {s'' : PrintfState} {out' : List ℤ} (h : Sends s s' out)
    (h' : Sends s' s'' out') : Sends s s'' (out ++ out') where
  intEnabled := h'.intEnabled.trans h.intEnabled
  sent := by rw [h'.sent, h.sent, List.map_append, List.append_assoc]

theorem intBeginAtomic_eq (s : PrintfState) :
    s.intBeginAtomic = .ok (s.intEnabled, { s with intEnabled := false }) := by
  obtain ⟨buf, args, intEnabled, sent⟩ := s
  cases intEnabled <;> rfl

theorem intEndAtomic_eq (s : PrintfState) (h : s.intEnabled = false) (iflag : Bool) :
    s.intEndAtomic iflag = .ok { s with intEnabled := iflag } := by
  obtain ⟨buf, args, intEnabled, sent⟩ := s
  obtain rfl : intEnabled = false := h
  cases iflag <;> rfl

theorem consPutchar_eq (s : PrintfState) (ch : ℤ) :
    s.consPutchar ch = .ok (s.send (.op (.putchar ch))) := by
  rw [consPutchar, intBeginAtomic_eq, Result.ok_bind]
  exact intEndAtomic_eq _ rfl _

theorem consWrite_eq (s : PrintfState) (str : List ℤ) :
    s.consWrite str = .ok (s.send (.write str)) := by
  rw [consWrite, intBeginAtomic_eq, Result.ok_bind]
  exact intEndAtomic_eq _ rfl _

theorem send_sends {call : Call} (h : call.ops = out.map Op.putchar) :
    Sends s (s.send call) out := ⟨rfl, by simp [send, h]⟩

/-- The digit buffer is read up to its terminator. -/
theorem write_ops {l : List Int8} {n : ℕ} (hz : 0 ∉ l) (hn : l.length < n) (buf : ℕ → Int8) :
    (Call.write (((List.range' 0 n).map (writeAt buf 0 (l ++ [0]))).map Int8.toInt)).ops =
      (l.map Int8.toInt).map Op.putchar := by
  have hzero : ((fun ch : ℤ => decide (ch ≠ 0)) ∘ Int8.toInt) = fun c : Int8 => decide (c ≠ 0) := by
    funext c
    simp [← Int8.toInt_inj]
  rw [Call.ops, List.takeWhile_map, hzero, takeWhile_writeAt hz hn]

/-- The digit buffer goes to the console up to its terminator. -/
theorem consWriteBuf_sends {l : List Int8} {buf : ℕ → Int8} (hz : 0 ∉ l) (hn : l.length < bufsize) :
    ∃ t, { s with buf := writeAt buf 0 (l ++ [0]) }.consWriteBuf = .ok t ∧ t.args = s.args ∧
      Sends s t (l.map Int8.toInt) := by
  -- the terminator is in the buffer
  have hterm : 0 ∈ (List.range' 0 bufsize).map (writeAt buf 0 (l ++ [0])) := by
    refine List.mem_map.mpr ⟨l.length, by simpa using hn, ?_⟩
    simp [writeAt_apply]
  have hok : { s with buf := writeAt buf 0 (l ++ [0]) }.consWriteBuf =
      .ok ({ s with buf := writeAt buf 0 (l ++ [0]) : PrintfState }.send (.write
        (((List.range' 0 bufsize).map (writeAt buf 0 (l ++ [0]))).map Int8.toInt))) := by
    rw [consWriteBuf, Result.require, if_pos hterm, Result.ok_bind, consWrite_eq]
  refine ⟨_, hok, rfl, rfl, ?_⟩
  simp only [send, List.flatMap_append, List.flatMap_cons, List.flatMap_nil, List.append_nil,
    write_ops hz hn]

theorem vaArg_eq (isLong : Bool) (s : PrintfState) : s.vaArg isLong = s.vaArgInt := ite_self _

theorem vaArgInt_eq {w : Word} (h : s.args = .word w :: args) :
    s.vaArgInt = .ok (w, { s with args }) := by
  rw [vaArgInt, h]
  rfl

/-- What a step of the loop does: the arguments `args'` are left for the other directives. -/
structure Converts (s t : PrintfState) (d : Directive) (ds : List Directive)
    (args args' rest : List Arg) : Prop where
  left : t.args = args' ++ rest
  matched : Matches ds args'
  sends : ∃ out, Sends s t out ∧ expansion (d :: ds) args = out ++ expansion ds args'

variable {ds : List Directive} {isLong : Bool} {conv : WordConv}

/-- A conversion that leaves characters in the digit buffer. -/
theorem convertWord_sends {render : (ℕ → Int8) → Word → Except PrintfFault (ℕ → Int8)}
    {chars : Word → List Int8} (hm : Matches (.word conv :: ds) args) (hargs : s.args = args ++ rest)
    (hrender : ∀ buf w, render buf w = .ok (writeAt buf 0 (chars w ++ [0])))
    (hchars : ∀ w, (chars w).map Int8.toInt = conv.chars w) (hpos : ∀ w, ∀ ch ∈ conv.chars w, 0 < ch)
    (hlength : ∀ w, (chars w).length < bufsize) :
    ∃ t args', (do
        let (value, s) ← s.vaArg isLong
        let buf ← render s.buf value
        { s with buf }.consWriteBuf) = .ok t ∧ Converts s t (.word conv) ds args args' rest := by
  cases hm with
  | @word _ args _ w hm =>
    -- none of the characters ends the string
    have hz : 0 ∉ chars w := zero_not_mem_of_toInt fun h =>
      absurd (hpos w 0 (hchars w ▸ h)) (lt_irrefl 0)
    obtain ⟨t, hok, htargs, hsends⟩ :=
      @consWriteBuf_sends { s with args := args ++ rest } (chars w) s.buf hz (hlength w)
    refine ⟨t, args, ?_, htargs, hm, conv.chars w, ⟨hsends.intEnabled, ?_⟩, rfl⟩
    · rw [vaArg_eq, vaArgInt_eq hargs, Result.ok_bind]
      dsimp only
      rw [hrender, Result.ok_bind]
      exact hok
    · rw [← hchars]
      exact hsends.sent

theorem ltoaChars_length (w : Word) : (ltoaChars w).length < bufsize := by
  have hlt : w.toInt.natAbs < 10 ^ 10 := by
    have hw := w.isLt
    rw [BitVec.toInt_eq_toNat_cond]
    split_ifs <;> omega
  have hlength := numeral_length_le (b := 10) (by decide) (by decide) hlt
  have hbuf : bufsize = 41 := rfl
  unfold ltoaChars
  split
  · rw [List.length_cons, List.length_map]
    omega
  · rw [List.length_map]
    omega

theorem ultoaChars_length (w : Word) : ((numeral 10 w.toNat).map digitChar).length < bufsize := by
  have hlength := numeral_word_length w
  have hbuf : bufsize = 41 := rfl
  rw [List.length_map]
  omega

/-- A conversion takes its argument and sends what the directive stands for. -/
theorem convert_sends (isLong : Bool) (c : Int8) (hm : Matches (conversion c :: ds) args)
    (hargs : s.args = args ++ rest) :
    ∃ t args', s.convert isLong c = .ok t ∧ Converts s t (conversion c) ds args args' rest := by
  unfold convert
  unfold conversion at hm ⊢
  split_ifs at hm ⊢ with hd hu hx hc hs
  · exact convertWord_sends hm hargs (fun buf w => consLtoa_eq w buf) ltoaChars_toInt
      (fun w ch => decimalChars_pos) ltoaChars_length
  · have hrender : ∀ (buf : ℕ → Int8) (w : Word), consUltoa buf 0 w.toNat =
        .ok (writeAt buf 0 ((numeral 10 w.toNat).map digitChar ++ [0])) := by
      intro buf w
      have hlength := numeral_word_length w
      have hbuf : bufsize = 41 := rfl
      exact consUltoa_eq w.toNat (by omega) buf
    exact convertWord_sends hm hargs hrender (fun w => digits_toInt w.toNat)
      (fun w ch => digitChars_pos) ultoaChars_length
  · refine convertWord_sends hm hargs (fun buf w => consLtox_eq w buf) hexDigits_toInt
      (fun w ch => hexChars_pos) fun w => ?_
    rw [List.length_map, fixed_length]
    decide
  · cases hm with
    | @word _ args _ w hm =>
      -- the low byte
      have hbyte : (w &&& 0xFF).toNat = w.toNat % 256 := by
        rw [BitVec.toNat_and]
        exact Nat.and_two_pow_sub_one_eq_mod w.toNat 8
      refine ⟨({ s with args := args ++ rest } : PrintfState).send
        (.op (.putchar (w.toNat % 256 : ℕ))), args, ?_, rfl, hm, _, ⟨rfl, (send_sends rfl).sent⟩, rfl⟩
      rw [vaArgInt_eq hargs, Result.ok_bind]
      dsimp only
      rw [consPutchar_eq, hbyte]
      rfl
  · cases hm with
    | @string _ args str hm =>
      refine ⟨({ s with args := args ++ rest } : PrintfState).send
        (.write (str.memory.map Int8.toInt)), args, ?_, rfl, hm, _,
        ⟨rfl, (send_sends str.write_ops).sent⟩, rfl⟩
      rw [vaArgStr, hargs]
      exact consWrite_eq _ _
  · cases hm with
    | literal _ hm =>
      exact ⟨s.send (.op (.putchar c.toInt)), args, consPutchar_eq _ _, hargs, hm, [c.toInt],
        send_sends rfl, rfl⟩

theorem Converts.trans {t t' : PrintfState} {d : Directive} {args' : List Arg}
    (h : Converts s t d ds args args' rest) (ht : Sends t t' (expansion ds args')) :
    Sends s t' (expansion (d :: ds) args) := by
  obtain ⟨out, hsends, heq⟩ := h.sends
  rw [heq]
  exact hsends.trans ht

/-- The rounds of the loop send what the directives stand for, one after the other. -/
theorem printfLoop_sends (chars : List Int8) (hz : 0 ∉ chars) (hm : Matches (directives chars) args)
    (hargs : s.args = args ++ rest) :
    ∃ t, printfLoop (chars ++ [0]) s = .ok t ∧ t.args = rest ∧
      Sends s t (expansion (directives chars) args) := by
  induction chars using directives.induct generalizing s args with
  | case1 =>
    cases hm
    exact ⟨s, rfl, hargs, .refl s⟩
  | case2 | case3 =>
    -- the format ends in a `%` or in a `%l`
    cases hm
    exact ⟨s, rfl, hargs, .refl s⟩
  | case4 c fmt ih =>
    simp only [List.mem_cons, not_or] at hz
    have hdirectives : directives (37 :: 108 :: c :: fmt) = conversion c :: directives fmt := rfl
    rw [hdirectives] at hm ⊢
    obtain ⟨t, args', hok, hconverts⟩ := convert_sends true c hm hargs
    obtain ⟨t', hok', hargs', hsends⟩ := ih hz.2.2.2 hconverts.matched hconverts.left
    refine ⟨t', ?_, hargs', hconverts.trans hsends⟩
    rw [List.cons_append, List.cons_append, List.cons_append, printfLoop.eq_def]
    dsimp only
    rw [if_neg (by decide), if_pos rfl, if_neg (by decide), if_pos rfl, if_neg (Ne.symm hz.2.2.1), hok]
    exact hok'
  | case5 c fmt hl ih =>
    simp only [List.mem_cons, not_or] at hz
    have hdirectives : directives (37 :: c :: fmt) = conversion c :: directives fmt := by
      rw [directives.eq_def]
      exact if_neg hl
    rw [hdirectives] at hm ⊢
    obtain ⟨t, args', hok, hconverts⟩ := convert_sends (c = 112) c hm hargs
    obtain ⟨t', hok', hargs', hsends⟩ := ih hz.2.2 hconverts.matched hconverts.left
    refine ⟨t', ?_, hargs', hconverts.trans hsends⟩
    rw [List.cons_append, List.cons_append, printfLoop.eq_def]
    dsimp only
    rw [if_neg (by decide), if_pos rfl, if_neg (Ne.symm hz.2.1), if_neg hl, hok]
    exact hok'
  | case6 c fmt hc ih =>
    simp only [List.mem_cons, not_or] at hz
    have hdirectives : directives (c :: fmt) = .literal c :: directives fmt := by
      rw [directives.eq_def]
      exact if_neg hc
    rw [hdirectives] at hm ⊢
    cases hm with
    | literal _ hm =>
      have hputchar := s.consPutchar_eq c.toInt
      obtain ⟨t', hok', hargs', hsends⟩ := ih (s := s.send (.op (.putchar c.toInt))) hz.2 hm hargs
      have hsend : s.Sends (s.send (.op (.putchar c.toInt))) [c.toInt] := send_sends rfl
      refine ⟨t', ?_, hargs', hsend.trans hsends⟩
      rw [List.cons_append, printfLoop.eq_def]
      dsimp only
      rw [if_neg (Ne.symm hz.1), if_neg hc, hputchar]
      exact hok'

end PrintfState

/-! ## Reading the numbers -/

/-- The number that decimal digits stand for. -/
def parseDigits (chars : List ℤ) : Option ℕ :=
  if chars ≠ [] ∧ ∀ ch ∈ chars, 48 ≤ ch ∧ ch ≤ 57 then
    some (value 10 (chars.map fun ch => (ch - 48).toNat))
  else none

/-- The number that decimal digits stand for, behind a sign or not. -/
def parseDecimal : List ℤ → Option ℤ
  | [] => none
  | ch :: chars =>
      if ch = 45 then (parseDigits chars).map fun n : ℕ => -(n : ℤ)
      else (parseDigits (ch :: chars)).map fun n : ℕ => (n : ℤ)

/-- Digits without leading zeroes, behind a sign unless they are those of zero, or not. -/
def IsCanonical (chars : List ℤ) : Prop :=
  ∃ ds : List ℕ, Canonical ds ∧ (∀ d ∈ ds, d < 10) ∧
    (chars = ds.map (fun d : ℕ => (d : ℤ) + 48) ∨
      chars = 45 :: ds.map (fun d : ℕ => (d : ℤ) + 48) ∧ ds ≠ [0])

/-- Digits stand for their value. -/
theorem parseDigits_map {ds : List ℕ} (hne : ds ≠ []) (hlt : ∀ d ∈ ds, d < 10) :
    parseDigits (ds.map fun d : ℕ => (d : ℤ) + 48) = some (value 10 ds) := by
  have hdigit : ∀ ch ∈ ds.map fun d : ℕ => (d : ℤ) + 48, 48 ≤ ch ∧ ch ≤ 57 := by
    intro ch hch
    obtain ⟨d, hd, rfl⟩ := List.mem_map.mp hch
    have hlt := hlt d hd
    omega
  have hid : ds.map ((fun ch : ℤ => (ch - 48).toNat) ∘ fun d : ℕ => (d : ℤ) + 48) = ds := by
    refine List.map_id'' (fun d => ?_) _
    rw [Function.comp_apply, Int.add_sub_cancel, Int.toNat_natCast]
  rw [parseDigits, if_pos ⟨by simpa using hne, hdigit⟩, List.map_map, hid]

/-- Digits have no sign. -/
theorem parseDecimal_map {ds : List ℕ} (hne : ds ≠ []) (hlt : ∀ d ∈ ds, d < 10) :
    parseDecimal (ds.map fun d : ℕ => (d : ℤ) + 48) = some (value 10 ds : ℤ) := by
  have hparse := parseDigits_map hne hlt
  cases ds with
  | nil => exact absurd rfl hne
  | cons d ds =>
    rw [List.map_cons] at hparse ⊢
    rw [parseDecimal, if_neg (by omega), hparse]
    rfl

theorem parseDigits_digitChars (n : ℕ) : parseDigits (digitChars n) = some n := by
  rw [digitChars, parseDigits_map (numeral_canonical 10 n).nonempty fun d => numeral_lt (by decide),
    value_numeral]

theorem parseDecimal_digitChars (n : ℕ) : parseDecimal (digitChars n) = some (n : ℤ) := by
  rw [digitChars, parseDecimal_map (numeral_canonical 10 n).nonempty fun d => numeral_lt (by decide),
    value_numeral]

theorem parseDecimal_decimalChars (v : ℤ) : parseDecimal (decimalChars v) = some v := by
  unfold decimalChars
  split
  next hneg =>
    rw [parseDecimal, if_pos rfl, parseDigits_digitChars, Option.map_some]
    congr 1
    omega
  next hpos =>
    rw [parseDecimal_digitChars]
    congr 1
    omega

theorem isCanonical_digitChars (n : ℕ) : IsCanonical (digitChars n) :=
  ⟨numeral 10 n, numeral_canonical 10 n, fun _ hd => numeral_lt (by decide) hd, .inl rfl⟩

theorem isCanonical_decimalChars (v : ℤ) : IsCanonical (decimalChars v) := by
  unfold decimalChars
  split
  next hneg =>
    refine ⟨numeral 10 v.natAbs, numeral_canonical 10 _, fun _ hd => numeral_lt (by decide) hd,
      .inr ⟨rfl, fun hzero => ?_⟩⟩
    have hvalue := value_numeral 10 v.natAbs
    rw [hzero, show value 10 [0] = 0 from rfl] at hvalue
    omega
  next => exact isCanonical_digitChars _

/-- The canonical characters of a number are those that are printed. -/
theorem eq_decimalChars {chars : List ℤ} {v : ℤ} (h : IsCanonical chars)
    (hv : parseDecimal chars = some v) : chars = decimalChars v := by
  obtain ⟨ds, hds, hlt, rfl | ⟨rfl, hzero⟩⟩ := h
  · rw [parseDecimal_map hds.nonempty hlt, Option.some.injEq] at hv
    rw [← hv, decimalChars, if_neg (by omega), Int.natAbs_natCast, digitChars,
      numeral_value (by decide) hds hlt]
  · rw [parseDecimal, if_pos rfl, parseDigits_map hds.nonempty hlt, Option.map_some,
      Option.some.injEq] at hv
    have hpos : value 10 ds ≠ 0 := by
      intro hvalue
      have hnumeral := numeral_value (by decide) hds hlt
      rw [hvalue] at hnumeral
      exact hzero hnumeral.symm
    rw [← hv, decimalChars, if_pos (by omega), Int.natAbs_neg, Int.natAbs_natCast, digitChars,
      numeral_value (by decide) hds hlt]

theorem decimalChars_natCast (n : ℕ) : decimalChars n = digitChars n := by
  rw [decimalChars, if_neg (by omega), Int.natAbs_natCast]

/-- What is printed of a word can be read back, and nothing else in the canonical form is read as the
same number. -/
structure Readable (w : Word) : Prop where
  decimal : ∀ chars, chars = decimalChars w.toInt ↔
    IsCanonical chars ∧ parseDecimal chars = some w.toInt
  unsigned : ∀ chars, chars = digitChars w.toNat ↔
    IsCanonical chars ∧ parseDecimal chars = some (w.toNat : ℤ)
  hex : ∃ ds : List ℕ, hexChars w = ds.map hexChar ∧ ds.length = 8 ∧ (∀ d ∈ ds, d < 16) ∧
    value 16 ds = w.toNat

theorem eq_decimalChars_iff {chars : List ℤ} {v : ℤ} :
    chars = decimalChars v ↔ IsCanonical chars ∧ parseDecimal chars = some v := by
  constructor
  · rintro rfl
    exact ⟨isCanonical_decimalChars v, parseDecimal_decimalChars v⟩
  · exact fun ⟨hcanonical, hv⟩ => eq_decimalChars hcanonical hv

theorem readable (w : Word) : Readable w where
  decimal _ := eq_decimalChars_iff
  unsigned chars := by
    rw [← decimalChars_natCast]
    exact eq_decimalChars_iff
  hex := ⟨_, rfl, fixed_length .., fun _ hd => fixed_lt (by decide) hd,
    value_fixed (Nat.lt_of_lt_of_le w.isLt (by decide))⟩

/-- `cons_printf` with the arguments that its format takes sends the expansion of the format to the
console, and leaves the other arguments and the interrupt flag as they are. -/
theorem consPrintf_expands (fmt : CString) (s : PrintfState) {args rest : List Arg}
    (hargs : s.args = args ++ rest) (hm : Matches (directives fmt.chars) args) :
    (∃ t, consPrintf fmt.memory s = .ok t ∧ t.args = rest ∧ t.intEnabled = s.intEnabled ∧
      t.sent.flatMap Call.ops =
        s.sent.flatMap Call.ops ++ (expansion (directives fmt.chars) args).map Op.putchar) ∧
      ∀ w, Readable w := by
  refine ⟨?_, readable⟩
  obtain ⟨t, hok, hleft, hsends⟩ := PrintfState.printfLoop_sends
    (s := { s with intEnabled := false }) fmt.chars fmt.nonzero hm hargs
  refine ⟨{ t with intEnabled := s.intEnabled }, ?_, hleft, rfl, hsends.sent⟩
  rw [consPrintf, PrintfState.intBeginAtomic_eq, Result.ok_bind]
  dsimp only
  rw [CString.memory, hok]
  exact PrintfState.intEndAtomic_eq t hsends.intEnabled s.intEnabled

/-- The format `%d`. -/
def formatD : CString := ⟨[37, 100], by decide⟩

theorem consPrintf_expands_intMin :
    (∃ t, consPrintf formatD.memory ⟨fun _ => 0, [.word 0x80000000], true, []⟩ = .ok t ∧
      t.args = [] ∧ t.intEnabled = true ∧
      t.sent.flatMap Call.ops =
        [] ++ (expansion (directives formatD.chars) [.word 0x80000000]).map Op.putchar) ∧
      ∀ w, Readable w :=
  consPrintf_expands formatD ⟨fun _ => 0, [.word 0x80000000], true, []⟩
    (List.append_nil [Arg.word 0x80000000]).symm (.word .decimal 0x80000000 .nil)

end GeekOS.Console
