import GeekOS.Keyboard.Readers
import GeekOS.Keyboard.ScanCodes

/-!
# The interrupts of the keyboard

The kernel with the ring, interrupted by the keyboard with bytes instead of key codes. Whatever else
happens in between, `s_shiftstate` is a function of the bytes read so far.

* `Pressed`: the last byte for a modifier key was a press;
* `shiftstate_of_run`: `s_shiftstate` has the flags of the modifier keys that are pressed;
* `handlesBytes_of_run`: which key code a byte puts into the buffer.
-/

namespace GeekOS.Keyboard

open Result TransitionSystem

/-- `PS2_OUTPUT_FULL`. -/
def ps2OutputFull : BitVec 8 := 0x01

/-- The kernel with `s_shiftstate`. -/
structure Driver where
  kernel : State
  shiftstate : BitVec 32

/-- What can happen next. -/
inductive DriverEvent
  /-- An event of the kernel other than an interrupt of the keyboard. -/
  | kernel (e : Event)
  /-- The keyboard interrupts the current thread; the ports give these bytes. -/
  | interrupt (status scanCode : BitVec 8)

/-- The event is an interrupt of the keyboard. -/
def isKeyboard : Event → Bool
  | .keyboard _ => true
  | _ => false

namespace Driver

variable (d : Driver)

/-- `keyboard_int_handler`. -/
def keyboardIntHandler (status scanCode : BitVec 8) : Except BufferFault Driver := do
  if status &&& ps2OutputFull ≠ 0 then
    let (shiftstate, keycode) := processKey scanCode d.shiftstate
    -- `enqueue`, `wakeup` and `g_need_reschedule`, if there is a key code
    let kernel ← d.kernel.exec (.keyboard (keycode.map BitVec.toNat))
    pure { kernel, shiftstate }
  else
    -- `PS2_DATA` is not read
    let kernel ← d.kernel.exec (.keyboard none)
    pure { d with kernel }

/-- Carry out an event. -/
def exec : DriverEvent → Except BufferFault Driver
  | .kernel e => do
      let kernel ← d.kernel.exec e
      pure { d with kernel }
  | .interrupt status scanCode => d.keyboardIntHandler status scanCode

/-- The event can come now. -/
def Enabled : DriverEvent → Prop
  | .kernel e => isKeyboard e = false ∧ d.kernel.machine.Enabled e
  | .interrupt _ _ => d.kernel.machine.Enabled (.keyboard none)

instance (e : DriverEvent) : Decidable (d.Enabled e) := by
  cases e <;> unfold Enabled <;> infer_instance

/-- One step. -/
def Step : Driver → DriverEvent → Driver → Prop := stepOf Enabled exec

/-- The state behind `keyboard_init`. -/
def initial : Driver where
  kernel := State.initial
  shiftstate := 0

end Driver

/-- The byte that the handler reads from the keyboard, unless it skips it. -/
def DriverEvent.reads : DriverEvent → List (BitVec 8)
  | .kernel _ => []
  | .interrupt status scanCode =>
      if status &&& ps2OutputFull ≠ 0 ∧ scanCode ≠ keyEscape then [scanCode] else []

/-- The bytes that the handler has read. -/
def bytesRead (tr : List (Driver × DriverEvent)) : List (BitVec 8) := tr.flatMap fun p => p.2.reads

/-- The last byte for the modifier key was a press. -/
def Pressed (m : Modifier) (bytes : List (BitVec 8)) : Prop :=
  ∃ b, (bytes.filter (m.IsFor ·)).getLast? = some b ∧ b &&& kbKeyRelease = 0

theorem not_pressed_nil {m : Modifier} : ¬Pressed m [] := by simp [Pressed]

theorem pressed_concat {m : Modifier} {bytes : List (BitVec 8)} {b : BitVec 8} :
    Pressed m (bytes ++ [b]) ↔ if m.IsFor b then b &&& kbKeyRelease = 0 else Pressed m bytes := by
  rw [Pressed, List.filter_append]
  by_cases hb : m.IsFor b
  · simp [hb]
  · simp [hb, Pressed]

section Steps

variable {d d' : Driver} {status b : BitVec 8}

/-- What an interrupt does: it returns with the keys as they were, or it enqueues a key code. -/
theorem interrupt_cases (h : d.exec (.interrupt status b) = .ok d') :
    d'.shiftstate = (if status &&& ps2OutputFull ≠ 0 then (processKey b d.shiftstate).1
      else d.shiftstate) ∧
    ((status &&& ps2OutputFull = 0 ∨ (processKey b d.shiftstate).2 = none) ∧
      d'.kernel.buffer = d.kernel.buffer ∧ d'.kernel.delivered = d.kernel.delivered ∨
    ∃ keycode, status &&& ps2OutputFull ≠ 0 ∧ (processKey b d.shiftstate).2 = some keycode ∧
      d.kernel.exec (.keyboard (some keycode.toNat)) = .ok d'.kernel) := by
  simp only [Driver.exec, Driver.keyboardIntHandler] at h
  split_ifs at h ⊢ with hfull
  · obtain ⟨kernel, hk, h⟩ := bind_eq_ok.mp h
    obtain rfl := pure_eq_ok.mp h
    refine ⟨rfl, ?_⟩
    cases hcode : (processKey b d.shiftstate).2 with
    | none =>
      rw [hcode] at hk
      exact .inl ⟨.inr rfl, State.exec_keyboard hk⟩
    | some keycode =>
      rw [hcode] at hk
      exact .inr ⟨keycode, hfull, rfl, hk⟩
  · obtain ⟨kernel, hk, h⟩ := bind_eq_ok.mp h
    obtain rfl := pure_eq_ok.mp h
    exact ⟨rfl, .inl ⟨.inl (not_not.mp hfull), State.exec_keyboard hk⟩⟩

/-- A step of the driver changes the flag of a modifier key with the bytes that it reads. -/
theorem shiftstate_step {e : DriverEvent} {m : Modifier} {bytes : List (BitVec 8)}
    (h : d.shiftstate &&& m.flag ≠ 0 ↔ Pressed m bytes) (hs : d.exec e = .ok d') :
    d'.shiftstate &&& m.flag ≠ 0 ↔ Pressed m (bytes ++ e.reads) := by
  cases e with
  | kernel e =>
    obtain ⟨kernel, -, hs⟩ := bind_eq_ok.mp hs
    obtain rfl := pure_eq_ok.mp hs
    simpa [DriverEvent.reads] using h
  | interrupt status b =>
    rw [(interrupt_cases hs).1, DriverEvent.reads]
    -- a byte that is not read, or is skipped, counts on neither side
    by_cases hfull : status &&& ps2OutputFull = 0
    · simpa [hfull] using h
    · rw [if_pos hfull]
      by_cases hb : b = keyEscape
      · rw [processKey_unknown (.inl hb)]
        simpa [hb] using h
      · have hread : status &&& ps2OutputFull ≠ 0 ∧ b ≠ keyEscape := ⟨hfull, hb⟩
        rw [if_pos hread, pressed_concat, ← h]
        exact processKey_flag

end Steps

/-- In every state of a run, `s_shiftstate` has the flags of the modifier keys that are pressed. -/
theorem shiftstate_of_run {tr : List (Driver × DriverEvent)} {d : Driver}
    (h : Run Driver.Step Driver.initial tr d) (m : Modifier) :
    d.shiftstate &&& m.flag ≠ 0 ↔ Pressed m (bytesRead tr) := by
  induction h with
  | nil => exact iff_of_false (by simp [Driver.initial]) not_pressed_nil
  | snoc _ hs ih =>
    -- the last byte for the key may be the one of this step
    rw [bytesRead, List.flatMap_append, List.flatMap_singleton]
    exact shiftstate_step ih hs.2

/-- The key code is not that of a modifier key. -/
def IsNoModifier (keycode : Keycode) : Prop :=
  ∀ m : Modifier, BitVec.ofNat 16 keycode &&& 0x0fff ≠ m.key

/-- The key code of a byte that is in the tables and not for a modifier key. -/
theorem processKey_some {b : BitVec 8} {shiftstate : BitVec 32} {keycode : BitVec 16}
    (h : (processKey b shiftstate).2 = some keycode) :
    b ≠ keyEscape ∧ scanIndex b < scanTableSize ∧ (∀ m : Modifier, ¬m.IsFor b) ∧
      keycode = formatKeycode (scanKey (shiftstate &&& shiftMask ≠ 0) b)
        (shiftstate &&& shiftMask ≠ 0) shiftstate (b &&& kbKeyRelease ≠ 0) := by
  by_cases hknown : b = keyEscape ∨ scanTableSize ≤ scanIndex b
  · simp [processKey_unknown hknown] at h
  · obtain ⟨hb, hlt⟩ := not_or.mp hknown
    by_cases hm : ∃ m : Modifier, m.IsFor b
    · obtain ⟨m, hm⟩ := hm
      simp [processKey_modifier hm] at h
    · rw [processKey_key hb (Nat.not_le.mp hlt) (not_exists.mp hm)] at h
      exact ⟨hb, Nat.not_le.mp hlt, not_exists.mp hm, (Option.some.inj h).symm⟩

/-- No key code that has been enqueued is that of a modifier key. -/
theorem isNoModifier_of_run {tr : List (Driver × DriverEvent)} {d : Driver}
    (h : Run Driver.Step Driver.initial tr d) :
    ∀ keycode ∈ d.kernel.keys, IsNoModifier keycode := by
  refine h.invariant (I := fun d => ∀ keycode ∈ d.kernel.keys, IsNoModifier keycode)
    (fun _ hmem => absurd hmem List.not_mem_nil) fun d e d' hI hs => ?_
  have hsame : d'.kernel.keys = d.kernel.keys → ∀ keycode ∈ d'.kernel.keys, IsNoModifier keycode :=
    fun heq => heq ▸ hI
  cases e with
  | kernel e =>
    obtain ⟨⟨hkey, -⟩, hs⟩ := hs
    obtain ⟨kernel, hk, hs⟩ := bind_eq_ok.mp hs
    obtain rfl := pure_eq_ok.mp hs
    -- keys only move from the buffer to the readers
    refine hsame ?_
    have hkeys := State.exec_keys hk
    cases e with
    | keyboard keycode => simp [isKeyboard] at hkey
    | call | resume | timer => simpa [State.accepts] using hkeys
  | interrupt status b =>
    rcases (interrupt_cases hs.2).2 with ⟨-, hbuffer, hdelivered⟩ | ⟨keycode, -, hcode, hk⟩
    · exact hsame (by rw [State.keys, State.keys, hbuffer, hdelivered])
    · intro code hcode' m
      rw [State.exec_keys hk] at hcode'
      rcases List.mem_append.mp hcode' with hold | hnew
      · exact hI code hold m
      · -- the code that has just been enqueued
        obtain ⟨-, hlt, hm, rfl⟩ := processKey_some hcode
        rw [State.eq_of_mem_accepts hnew, BitVec.ofNat_toNat, BitVec.setWidth_eq,
          (formatKeycode_flags (scanKey_flags hlt)).1]
        intro heq
        -- the `switch` would have taken it for a modifier key
        exact hm m ((modifierOf_scanKey _ hlt).mp (modifierOf_eq_some.mpr heq))

/-- The key code of a byte that comes behind these ones: the entry of the table for the state of the
shift keys, and the flags of the modifier keys that are pressed and of the byte. -/
structure Encodes (bytes : List (BitVec 8)) (b : BitVec 8) (keycode : BitVec 16) : Prop where
  shifted : Pressed .lshift bytes ∨ Pressed .rshift bytes →
    keycode &&& 0x0fff = sScanTableWithShift.getD (scanIndex b) 0
  unshifted : ¬(Pressed .lshift bytes ∨ Pressed .rshift bytes) →
    keycode &&& 0x0fff = sScanTableNoShift.getD (scanIndex b) 0
  shift : keycode &&& keyShiftFlag ≠ 0 ↔ Pressed .lshift bytes ∨ Pressed .rshift bytes
  ctrl : keycode &&& keyCtrlFlag ≠ 0 ↔ Pressed .lctrl bytes ∨ Pressed .rctrl bytes
  alt : keycode &&& keyAltFlag ≠ 0 ↔ Pressed .lalt bytes ∨ Pressed .ralt bytes
  release : keycode &&& keyReleaseFlag ≠ 0 ↔ b &&& kbKeyRelease ≠ 0

theorem encodes_formatKeycode {bytes : List (BitVec 8)} {b : BitVec 8} {shiftstate : BitVec 32}
    (h : ∀ m : Modifier, shiftstate &&& m.flag ≠ 0 ↔ Pressed m bytes)
    (hlt : scanIndex b < scanTableSize) :
    Encodes bytes b (formatKeycode (scanKey (shiftstate &&& shiftMask ≠ 0) b)
      (shiftstate &&& shiftMask ≠ 0) shiftstate (b &&& kbKeyRelease ≠ 0)) := by
  obtain ⟨hkey, hs, hc, ha, hr⟩ := formatKeycode_flags (scanKey_flags hlt)
  have hshift : shiftstate &&& shiftMask ≠ 0 ↔ Pressed .lshift bytes ∨ Pressed .rshift bytes :=
    and_or_ne_zero.trans (or_congr (h _) (h _))
  refine ⟨fun hp => ?_, fun hp => ?_, ?_, hc.trans (and_or_ne_zero.trans (or_congr (h _) (h _))),
    ha.trans (and_or_ne_zero.trans (or_congr (h _) (h _))), hr.trans decide_eq_true_iff⟩
  · -- the table is chosen by the flags of both shift keys
    rw [hkey, decide_eq_true (hshift.mpr hp)]
    rfl
  · rw [hkey, decide_eq_false (mt hshift.mp hp)]
    rfl
  · exact hs.trans (decide_eq_true_iff.trans hshift)

/-- In every run, whatever else happens: `s_shiftstate` has the flag of a modifier key exactly when
the last byte for this key was a press. No key code in the buffer, and none that has been read, is
that of a modifier key. A byte for a modifier key leaves the buffer alone; any other byte that is in
the tables adds one key code, if there is space, that has been made from the table for the state of
the shift keys, with the flags of the modifier keys that are pressed and of the byte. -/
theorem handlesBytes_of_run {tr : List (Driver × DriverEvent)} {d : Driver}
    (h : Run Driver.Step Driver.initial tr d) :
    (∀ m : Modifier, d.shiftstate &&& m.flag ≠ 0 ↔ Pressed m (bytesRead tr)) ∧
    (∀ keycode ∈ d.kernel.keys, IsNoModifier keycode) ∧
    ∀ status b d', d.Step (.interrupt status b) d' →
      status &&& ps2OutputFull ≠ 0 → b ≠ keyEscape →
      ((∃ m : Modifier, m.IsFor b) → d'.kernel.buffer = d.kernel.buffer) ∧
      (scanIndex b < scanTableSize → (∀ m : Modifier, ¬m.IsFor b) →
        ∃ keycode, Encodes (bytesRead tr) b keycode ∧ d'.kernel.buffer.contents =
          if d.kernel.buffer.contents.length < 255 then
            d.kernel.buffer.contents ++ [keycode.toNat]
          else d.kernel.buffer.contents) := by
  refine ⟨shiftstate_of_run h, isNoModifier_of_run h, fun status b d' hs hfull hb => ⟨?_, ?_⟩⟩
  · -- `goto done` behind the change of the flag
    rintro ⟨m, hm⟩
    have hnone : (processKey b d.shiftstate).2 = none := by rw [processKey_modifier hm]
    rcases (interrupt_cases hs.2).2 with ⟨-, hbuffer, -⟩ | ⟨keycode, -, hcode, -⟩
    · exact hbuffer
    · simp [hnone] at hcode
  · intro hlt hm
    have hcode : (processKey b d.shiftstate).2 = some _ :=
      congrArg Prod.snd (processKey_key hb hlt hm)
    rcases (interrupt_cases hs.2).2 with ⟨hnone, -⟩ | ⟨keycode, -, hcode', hk⟩
    · -- the byte has been read, and it has a key code
      simp [hcode] at hnone
      exact absurd hnone hfull
    · obtain rfl := Option.some.inj (hcode.symm.trans hcode')
      refine ⟨_, encodes_formatKeycode (shiftstate_of_run h) hlt, ?_⟩
      rw [(State.exec_keyboard hk).1, Option.elim_some, enqueue_contents]
      -- one entry of the 256 stays free
      exact if_congr Nat.succ_lt_succ_iff rfl rfl

/-- The left shift key is pressed, and then the key of the letter A. -/
def shiftedLetter : List DriverEvent := [.interrupt 0x01 0x2A, .interrupt 0x01 0x1E]

/-- The law above behind these events. -/
theorem handlesBytes_shiftedLetter : ∃ tr d, Run Driver.Step Driver.initial tr d ∧
    d.kernel.buffer.contents = [0x1041] ∧ Pressed .lshift (bytesRead tr) := by
  obtain ⟨tr, d, hr, hcontents, hflag⟩ := exists_run
    (P := fun _ d => d.kernel.buffer.contents = [0x1041] ∧
      d.shiftstate &&& Modifier.lshift.flag ≠ 0)
    (show Option.any _ (runs Driver.Enabled Driver.exec Driver.initial shiftedLetter) = true by
      decide)
  exact ⟨tr, d, hr, hcontents, ((handlesBytes_of_run hr).1 .lshift).mp hflag⟩

end GeekOS.Keyboard
