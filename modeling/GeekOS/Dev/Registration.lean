import GeekOS.Dev.Registry
import GeekOS.Library.Threads
import GeekOS.Strings.Routines

/-!
# The registration of devices

The rest of `dev.c`, and the search of the registry on the names in memory: a device has its name in
an array of `DEV_NAME_MAXLEN + 1` characters, cut off if it is longer. Every call locks the mutex of
the list and unlocks it again.

* `ReadsAs`: the devices of a list with their names read, and `devFindBlockdev_of_readsAs`: on them
  the search is that of `Dev.devFindBlockdev`;
* `successes`: the registrations that have succeeded, as the calls and what they returned tell;
* `inv_run`: the list has the devices of these registrations, under the names cut off, and no name
  twice.
-/

namespace GeekOS.Dev.Registration

open CString Result Strings Threads
open Vfs (Str eexist)

/-- What halts the kernel or reads memory that is not its own. -/
inductive Fault
  /-- `mutex_lock` by the thread that holds the mutex. -/
  | mutexHeld
  /-- `mutex_unlock` by a thread that does not. -/
  | mutexNotHeld
  /-- A character outside of a string's array. -/
  | outside
  deriving DecidableEq, Repr

/-- `struct device`; `none` is the null pointer. -/
structure Device (D : Type) where
  name : Block Char
  type : DevType
  devobj : Option D

/-- The variables of `dev.c`. -/
structure Devices (T D : Type) where
  devlist : List (Device D)
  devlistMutex : Option T

variable {T D σ : Type} [DecidableEq T]

/-! ## Definitions -/

/-- The array of the name of a device that `mem_alloc` has returned. -/
def allocName (fresh : ℕ → Char) : Block Char := memAlloc (devNameMaxlen + 1) fresh

/-- The loop of `dev_register`: whether a device with this name is already registered. -/
def isRegistered (name : Block Char) : List (Device D) → Except Fault Bool
  | [] => pure false
  | dev :: rest => do
      let cmp ← strncmp .outside name 0 dev.name 0 devNameMaxlen
      if cmp = 0 then pure true else isRegistered name rest

/-- `dev_register`. -/
def devRegister (t : T) (fresh : ℕ → Char) (type : DevType) (name : Block Char)
    (devobj : Option D) (s : Devices T D) : Except Fault (ℤ × Devices T D) := do
  let owner ← lock .mutexHeld t s.devlistMutex
  let found ← isRegistered name s.devlist
  if found then
    -- `goto done`
    let owner ← unlock .mutexNotHeld t owner
    pure (eexist, { s with devlistMutex := owner })
  else
    -- `strncpy` puts no terminator behind a name that fills the array
    let dest ← strncpy .outside (allocName fresh) 0 name 0 devNameMaxlen
    let dest ← store .outside dest devNameMaxlen nul
    let owner ← unlock .mutexNotHeld t owner
    pure (0, { devlist := s.devlist ++ [{ name := dest, type, devobj }], devlistMutex := owner })

/-- `dev_register_blockdev`. -/
def devRegisterBlockdev (t : T) (fresh : ℕ → Char) (name : Block Char) (dev : Option D)
    (s : Devices T D) : Except Fault (ℤ × Devices T D) :=
  devRegister t fresh .block name dev s

/-- The loop of `dev_enumerate`. -/
def enumerateFrom (callback : Device D → σ → Except Fault (Bool × σ)) :
    List (Device D) → σ → Except Fault σ
  | [], data => pure data
  | dev :: rest, data => do
      let (goesOn, data) ← callback dev data
      if goesOn then enumerateFrom callback rest data else pure data

/-- `dev_enumerate`. -/
def devEnumerate (t : T) (callback : Device D → σ → Except Fault (Bool × σ)) (data : σ)
    (s : Devices T D) : Except Fault (σ × Devices T D) := do
  let owner ← lock .mutexHeld t s.devlistMutex
  let data ← enumerateFrom callback s.devlist data
  let owner ← unlock .mutexNotHeld t owner
  pure (data, { s with devlistMutex := owner })

/-- `dev_find_callback`, whose data is the device found. -/
def devFindCallback (type : DevType) (name : Block Char) (dev : Device D) (result : Option D) :
    Except Fault (Bool × Option D) :=
  if dev.type = type then do
    let cmp ← strncmp .outside dev.name 0 name 0 devNameMaxlen
    if cmp = 0 then pure (false, dev.devobj) else pure (true, result)
  else
    pure (true, result)

/-- `dev_find_blockdev`. -/
def devFindBlockdev (t : T) (name : Block Char) (s : Devices T D) :
    Except Fault (Except ℤ D × Devices T D) := do
  let (result, s) ← devEnumerate t (devFindCallback .block name) none s
  match result with
  | none => pure (.error enodev, s)
  | some dev => pure (.ok dev, s)

/-- A call of the interface, with a device that is not null. -/
inductive Call (T D : Type)
  | registerBlockdev (t : T) (fresh : ℕ → Char) (name : Str) (dev : D)
  | findBlockdev (t : T) (name : Str)

/-- What a call returned. -/
inductive Answer (D : Type)
  | registered (rc : ℤ)
  | found (dev : Except ℤ D)

/-- The devices, and the calls so far with what they returned. -/
structure History (T D : Type) where
  devices : Devices T D
  log : List (Call T D × Answer D)

/-- One more call. -/
def Call.exec (h : History T D) (c : Call T D) : Except Fault (History T D) :=
  match c with
  | .registerBlockdev t fresh name dev => do
      let (rc, s) ← devRegisterBlockdev t fresh (nameBlock name) (some dev) h.devices
      pure ⟨s, h.log ++ [(c, .registered rc)]⟩
  | .findBlockdev t name => do
      let (dev, s) ← devFindBlockdev t (nameBlock name) h.devices
      pure ⟨s, h.log ++ [(c, .found dev)]⟩

/-- The calls one after the other, from the empty list on. -/
def runCalls : List (Call T D) → History T D → Except Fault (History T D)
  | [], h => pure h
  | c :: calls, h => c.exec h >>= runCalls calls

/-- Before the first call. -/
def History.initial : History T D := ⟨⟨[], none⟩, []⟩

/-- What of a name counts: its first `DEV_NAME_MAXLEN` characters. -/
def key (name : Str) : Str := name.take devNameMaxlen

/-- The registrations that have succeeded. -/
def successes (log : List (Call T D × Answer D)) : List (Str × D) :=
  log.filterMap fun
    | (.registerBlockdev _ _ name dev, .registered rc) => if rc = 0 then some (name, dev) else none
    | _ => none

/-- The entry of a registration that has succeeded. -/
def entryOf (r : Str × D) : DeviceEntry D := ⟨key r.1, .block, r.2⟩

/-- The devices are these, with their names read. -/
def ReadsAs (devlist : List (Device D)) (entries : List (DeviceEntry D)) : Prop :=
  List.Forall₂ (fun dev entry => Holds dev.name 0 entry.name ∧ dev.type = entry.type ∧
    dev.devobj = some entry.devobj) devlist entries

/-- Between two calls the mutex is free, the devices are those of the registrations that have
succeeded, in their order, and no two of these have the same key. -/
structure Inv (h : History T D) : Prop where
  free : h.devices.devlistMutex = none
  readsAs : ReadsAs h.devices.devlist ((successes h.log).map entryOf)
  nodup : ((successes h.log).map fun r => key r.1).Nodup

variable {devlist : List (Device D)} {entries : List (DeviceEntry D)} {s : Devices T D}
  {h h' : History T D} {t : T} {fresh : ℕ → Char} {name : Str} {dev : D}

/-! ## One call -/

@[simp]
theorem key_key : key (key name) = key name := by
  rw [key, key, List.take_take, Nat.min_self]

theorem strncmp_eq_zero_iff {x y : Str} :
    Vfs.strncmp x y devNameMaxlen = 0 ↔ key x = key y := by
  rw [Vfs.strncmp, Vfs.strcmp_eq_zero, key, key]

theorem isRegistered_eq (hl : ReadsAs devlist entries) :
    isRegistered (nameBlock name) devlist =
      .ok (decide (∃ entry ∈ entries, key name = key entry.name)) := by
  induction hl with
  | nil => rfl
  | @cons dev entry _ _ hdev _ ih =>
    rw [isRegistered, strncmp_eq (holds_nameBlock name) hdev.1, ok_bind]
    -- the comparison is of what was copied, so that a longer name is found under its beginning
    by_cases hkey : key name = key entry.name
    · rw [if_pos (strncmp_eq_zero_iff.mpr hkey)]
      simp [hkey, pure, Except.pure]
    · rw [if_neg (mt strncmp_eq_zero_iff.mp hkey), ih]
      simp [hkey]

/-- The name that `dev_register` has copied. -/
theorem strncpy_allocName :
    ∃ dest dest', strncpy Fault.outside (allocName fresh) 0 (nameBlock name) 0 devNameMaxlen =
        .ok dest ∧ store Fault.outside dest devNameMaxlen nul = .ok dest' ∧
      Holds dest' 0 (key name) := by
  have hroom : Room (allocName fresh) 0 (devNameMaxlen + 1) := room_memAlloc _ _
  have hlen : ((name.map Subtype.val ++ [nul]).take devNameMaxlen).length ≤ devNameMaxlen :=
    List.length_take_le ..
  -- the array has one character more than the limit
  have hlast : Room (write (allocName fresh) 0 ((name.map Subtype.val ++ [nul]).take devNameMaxlen))
      devNameMaxlen 1 := by
    intro i hi
    rw [isSome_write (hroom.mono (Nat.le_succ_of_le hlen))]
    simpa using hroom (devNameMaxlen + i) (by omega)
  refine ⟨_, _, strncpy_eq (holds_nameBlock name) (hroom.mono (Nat.le_succ _)),
    store_eq hlast nul, ?_⟩
  have hcut := @holds_strncpy (allocName fresh) 0 devNameMaxlen name
  rwa [Nat.zero_add] at hcut

/-- The list of devices is locked and unlocked again by a call that finds the name. -/
theorem devRegisterBlockdev_found (hfree : s.devlistMutex = none) (hl : ReadsAs s.devlist entries)
    (hkey : ∃ entry ∈ entries, key name = key entry.name) :
    devRegisterBlockdev t fresh (nameBlock name) (some dev) s = .ok (eexist, s) := by
  rw [devRegisterBlockdev, devRegister, hfree, lock_none, ok_bind, isRegistered_eq hl, ok_bind,
    if_pos (decide_eq_true hkey), unlock_some, ok_bind, ← hfree]
  rfl

/-- A call that does not find the name appends the device. -/
theorem devRegisterBlockdev_new (t : T) (fresh : ℕ → Char) (dev : D)
    (hfree : s.devlistMutex = none) (hl : ReadsAs s.devlist entries)
    (hkey : ¬∃ entry ∈ entries, key name = key entry.name) :
    ∃ s', devRegisterBlockdev t fresh (nameBlock name) (some dev) s = .ok (0, s') ∧
      s'.devlistMutex = none ∧ ReadsAs s'.devlist (entries ++ [entryOf (name, dev)]) := by
  obtain ⟨dest, dest', hcopy, hstore, hname⟩ := @strncpy_allocName fresh name
  refine ⟨⟨s.devlist ++ [⟨dest', .block, some dev⟩], none⟩, ?_, rfl, ?_⟩
  · rw [devRegisterBlockdev, devRegister, hfree, lock_none, ok_bind, isRegistered_eq hl, ok_bind,
      if_neg (by simpa using hkey), hcopy, ok_bind, hstore, ok_bind, unlock_some, ok_bind]
    rfl
  · exact List.rel_append hl (.cons ⟨hname, rfl, rfl⟩ .nil)

theorem enumerateFrom_eq (hl : ReadsAs devlist entries) (result : Option D) :
    enumerateFrom (devFindCallback .block (nameBlock name)) devlist result =
      .ok (Dev.devEnumerate (Dev.devFindCallback .block name) entries result) := by
  induction hl with
  | nil => rfl
  | @cons dev entry _ _ hdev _ ih =>
    obtain ⟨hname, htype, hobj⟩ := hdev
    rw [enumerateFrom, devFindCallback, Dev.devEnumerate, Dev.devFindCallback, htype]
    by_cases hblock : entry.type = .block
    · rw [if_pos hblock, strncmp_eq hname (holds_nameBlock name), ok_bind]
      by_cases hcmp : Vfs.strncmp entry.name name devNameMaxlen = 0
      · rw [if_pos hcmp, if_pos ⟨hblock, hcmp⟩, hobj]
        rfl
      · rw [if_neg hcmp, if_neg (fun h => hcmp h.2)]
        exact ih
    · -- another type: the callback lets the enumeration go on
      rw [if_neg hblock, if_neg (fun h => hblock h.1)]
      exact ih

/-- The search through the names in memory is that of `Dev.devFindBlockdev` through the names read,
and leaves the list as it is. -/
theorem devFindBlockdev_of_readsAs (hfree : s.devlistMutex = none)
    (hl : ReadsAs s.devlist entries) :
    devFindBlockdev t (nameBlock name) s = .ok (Dev.devFindBlockdev entries name, s) := by
  have hs : ({ s with devlistMutex := none } : Devices T D) = s := by rw [← hfree]
  rw [devFindBlockdev, devEnumerate, hfree, lock_none, ok_bind, enumerateFrom_eq hl, ok_bind,
    unlock_some, ok_bind, hs, Dev.devFindBlockdev]
  cases Dev.devEnumerate (Dev.devFindCallback .block name) entries none with
  | none => rfl
  | some dev => rfl

/-! ## Runs -/

/-- Whether a name is found among the registrations that have succeeded. -/
theorem exists_entryOf {l : List (Str × D)} :
    (∃ entry ∈ l.map entryOf, key name = key entry.name) ↔ ∃ r ∈ l, key r.1 = key name := by
  simp [entryOf, eq_comm]

/-- The search finds the one registration with the key of the name. -/
theorem devFindBlockdev_entryOf {l : List (Str × D)} {r : Str × D}
    (hnodup : (l.map fun r => key r.1).Nodup) (hr : r ∈ l) (hkey : key r.1 = key name) :
    Dev.devFindBlockdev (l.map entryOf) name = .ok r.2 := by
  have hnamed : ∀ r' : Str × D, (entryOf r').IsBlockdev name ↔ key r'.1 = key name := by
    intro r'
    rw [DeviceEntry.IsBlockdev, entryOf, ← key, ← key, key_key]
    exact and_iff_right rfl
  rw [Dev.devFindBlockdev_eq]
  cases hfind : (l.map entryOf).find? (·.IsBlockdev name) with
  | none =>
    rw [List.find?_eq_none] at hfind
    exact absurd ((hnamed r).mpr hkey) (by simpa using hfind _ (List.mem_map_of_mem hr))
  | some entry =>
    have hentry := List.find?_some hfind
    obtain ⟨r', hr', rfl⟩ := List.mem_map.mp (List.mem_of_find?_eq_some hfind)
    -- the first one found is the only one with this key
    have hkeys := ((hnamed r').mp (of_decide_eq_true hentry)).trans hkey.symm
    rw [List.inj_on_of_nodup_map hnodup hr' hr hkeys]
    rfl

/-- Without such a registration it does not find any device. -/
theorem devFindBlockdev_entryOf_none {l : List (Str × D)} (hkey : ∀ r ∈ l, key r.1 ≠ key name) :
    Dev.devFindBlockdev (l.map entryOf) name = .error enodev := by
  have hfind : (l.map entryOf).find? (·.IsBlockdev name) = none := by
    rw [List.find?_eq_none]
    intro entry hentry
    obtain ⟨r, hr, rfl⟩ := List.mem_map.mp hentry
    have hnot : ¬(entryOf r).IsBlockdev name := by
      rintro ⟨-, hname⟩
      exact hkey r hr (key_key.symm.trans hname)
    simpa using hnot
  rw [Dev.devFindBlockdev_eq, hfind]

omit [DecidableEq T] in
theorem inv_initial : Inv (History.initial : History T D) :=
  ⟨rfl, .nil, List.nodup_nil⟩

/-- No call fails, and each one keeps the invariant. -/
theorem inv_exec (hinv : Inv h) (c : Call T D) : ∃ h', c.exec h = .ok h' ∧ Inv h' := by
  obtain ⟨hfree, hl, hnodup⟩ := hinv
  cases c with
  | registerBlockdev t fresh name dev =>
    let c : Call T D := .registerBlockdev t fresh name dev
    by_cases hkey : ∃ r ∈ successes h.log, key r.1 = key name
    · -- the name is taken, and nothing changes
      refine ⟨⟨h.devices, h.log ++ [(c, .registered eexist)]⟩, ?_, ?_⟩
      · rw [Call.exec, devRegisterBlockdev_found hfree hl (exists_entryOf.mpr hkey)]
        rfl
      · have hlog : successes (h.log ++ [(c, .registered eexist)]) = successes h.log := by
          simp [c, successes, eexist]
        exact ⟨hfree, by rwa [hlog], by rwa [hlog]⟩
    · -- a new name, with the device behind the others
      obtain ⟨s', hexec, hfree', hl'⟩ :=
        devRegisterBlockdev_new t fresh dev hfree hl (mt exists_entryOf.mp hkey)
      refine ⟨⟨s', h.log ++ [(c, .registered 0)]⟩, ?_, ?_⟩
      · rw [Call.exec, hexec]
        rfl
      · have hlog : successes (h.log ++ [(c, .registered 0)]) =
            successes h.log ++ [(name, dev)] := by simp [c, successes]
        refine ⟨hfree', ?_, ?_⟩
        · rwa [hlog, List.map_append]
        · rw [hlog, List.map_append, List.nodup_append]
          refine ⟨hnodup, List.nodup_singleton _, ?_⟩
          rintro _ hr _ hlast rfl
          obtain ⟨r, hr, hr'⟩ := List.mem_map.mp hr
          exact hkey ⟨r, hr, hr'.trans (List.mem_singleton.mp hlast)⟩
  | findBlockdev t name =>
    let c : Call T D := .findBlockdev t name
    let found := Dev.devFindBlockdev ((successes h.log).map entryOf) name
    refine ⟨⟨h.devices, h.log ++ [(c, .found found)]⟩, ?_, ?_⟩
    · rw [Call.exec, devFindBlockdev_of_readsAs hfree hl]
      rfl
    · have hlog : successes (h.log ++ [(c, .found found)]) = successes h.log := by
        simp [c, successes]
      exact ⟨hfree, by rwa [hlog], by rwa [hlog]⟩

/-- The history has the calls in their order. -/
theorem log_exec {c : Call T D} (hexec : c.exec h = .ok h') :
    h'.log.map Prod.fst = h.log.map Prod.fst ++ [c] := by
  cases c with
  | registerBlockdev t fresh name dev =>
    obtain ⟨⟨rc, s⟩, -, hret⟩ := bind_eq_ok.mp hexec
    obtain rfl := Except.ok.inj hret
    rw [List.map_append]
    rfl
  | findBlockdev t name =>
    obtain ⟨⟨dev, s⟩, -, hret⟩ := bind_eq_ok.mp hexec
    obtain rfl := Except.ok.inj hret
    rw [List.map_append]
    rfl

theorem log_run {calls : List (Call T D)} (hrun : runCalls calls h = .ok h') :
    h'.log.map Prod.fst = h.log.map Prod.fst ++ calls := by
  induction calls generalizing h with
  | nil =>
    obtain rfl := Except.ok.inj hrun
    rw [List.append_nil]
  | cons c calls ih =>
    obtain ⟨h₁, hexec, hrun⟩ := bind_eq_ok.mp hrun
    rw [ih hrun, log_exec hexec, List.append_assoc]
    rfl

/-- No calls one after the other fail either. -/
theorem inv_run (hinv : Inv h) (calls : List (Call T D)) :
    ∃ h', runCalls calls h = .ok h' ∧ Inv h' := by
  induction calls generalizing h with
  | nil => exact ⟨h, rfl, hinv⟩
  | cons c calls ih =>
    obtain ⟨h₁, hexec, hinv₁⟩ := inv_exec hinv c
    rw [runCalls, hexec, ok_bind]
    exact ih hinv₁

/-- After any calls the devices are those of the registrations that succeeded, one for each key;
the next registration succeeds if none of these has its key and changes nothing otherwise, and the
next search finds the device of the one that has it. -/
theorem partialMap_of_run (calls : List (Call T D)) :
    ∃ h, runCalls calls History.initial = .ok h ∧ h.log.map Prod.fst = calls ∧
      ReadsAs h.devices.devlist ((successes h.log).map entryOf) ∧
      ((successes h.log).map fun r => key r.1).Nodup ∧
      (∀ t fresh name dev,
        ((∀ r ∈ successes h.log, key r.1 ≠ key name) →
          ∃ s', devRegisterBlockdev t fresh (nameBlock name) (some dev) h.devices =
            .ok (0, s')) ∧
        ((∃ r ∈ successes h.log, key r.1 = key name) →
          devRegisterBlockdev t fresh (nameBlock name) (some dev) h.devices =
            .ok (eexist, h.devices))) ∧
      ∀ t name,
        (∀ r ∈ successes h.log, key r.1 = key name →
          devFindBlockdev t (nameBlock name) h.devices = .ok (.ok r.2, h.devices)) ∧
        ((∀ r ∈ successes h.log, key r.1 ≠ key name) →
          devFindBlockdev t (nameBlock name) h.devices = .ok (.error enodev, h.devices)) := by
  obtain ⟨h, hrun, hfree, hl, hnodup⟩ := inv_run inv_initial calls
  refine ⟨h, hrun, log_run hrun, hl, hnodup,
    fun t fresh name dev => ⟨fun hkey => ?_, fun hkey => ?_⟩,
    fun t name => ⟨fun r hr hkey => ?_, fun hkey => ?_⟩⟩
  · obtain ⟨s', hexec, -⟩ := devRegisterBlockdev_new t fresh dev hfree hl
      (mt exists_entryOf.mp (by simpa using hkey))
    exact ⟨s', hexec⟩
  · exact devRegisterBlockdev_found hfree hl (exists_entryOf.mpr hkey)
  · rw [devFindBlockdev_of_readsAs hfree hl, devFindBlockdev_entryOf hnodup hr hkey]
  · rw [devFindBlockdev_of_readsAs hfree hl, devFindBlockdev_entryOf_none hkey]

end GeekOS.Dev.Registration
