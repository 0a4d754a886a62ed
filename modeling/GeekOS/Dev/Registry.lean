import GeekOS.Vfs.Path

/-!
# The registry of devices

`dev.c`: the list of the devices that have been registered, and the search for one of them by its
name. A device is a value of `D`.
-/

namespace GeekOS.Dev

open Vfs (Str strncmp)

/-- `DEV_NAME_MAXLEN`. -/
def devNameMaxlen : ℕ := 31

/-- `ENODEV`. -/
def enodev : ℤ := -5

/-- `dev_type_t`. -/
inductive DevType
  | char | block
  deriving DecidableEq, Repr

/-- `struct device`. -/
structure DeviceEntry (D : Type) where
  name : Str
  type : DevType
  devobj : D

variable {D σ : Type}

/-- `dev_enumerate`: call back for every device, as long as the callback wants to go on. -/
def devEnumerate (callback : DeviceEntry D → σ → Bool × σ) : List (DeviceEntry D) → σ → σ
  | [], data => data
  | dev :: rest, data =>
      match callback dev data with
      | (true, data) => devEnumerate callback rest data
      | (false, data) => data

/-- `dev_find_callback`, whose data is the device found. -/
def devFindCallback (type : DevType) (name : Str) (dev : DeviceEntry D) (result : Option D) :
    Bool × Option D :=
  if dev.type = type ∧ strncmp dev.name name devNameMaxlen = 0 then (false, some dev.devobj)
  else (true, result)

/-- `dev_find_blockdev`. -/
def devFindBlockdev (devlist : List (DeviceEntry D)) (name : Str) : Except ℤ D :=
  match devEnumerate (devFindCallback .block name) devlist none with
  | none => .error enodev
  | some dev => .ok dev

/-- The entry is that of a block device with this name, as far as names are compared. -/
def DeviceEntry.IsBlockdev (dev : DeviceEntry D) (name : Str) : Prop :=
  dev.type = .block ∧ dev.name.take devNameMaxlen = name.take devNameMaxlen

instance (dev : DeviceEntry D) (name : Str) : Decidable (dev.IsBlockdev name) :=
  inferInstanceAs (Decidable (_ ∧ _))

/-- The first block device of the name is found. -/
theorem devFindBlockdev_eq (devlist : List (DeviceEntry D)) (name : Str) :
    devFindBlockdev devlist name =
      match devlist.find? (·.IsBlockdev name) with
      | none => .error enodev
      | some dev => .ok dev.devobj := by
  unfold devFindBlockdev
  induction devlist with
  | nil => rfl
  | cons dev rest ih =>
    have hnamed : (dev.type = .block ∧ strncmp dev.name name devNameMaxlen = 0) ↔
        dev.IsBlockdev name := by
      rw [DeviceEntry.IsBlockdev, Vfs.strncmp, Vfs.strcmp_eq_zero]
    rw [devEnumerate, devFindCallback]
    by_cases hdev : dev.IsBlockdev name
    · rw [if_pos (hnamed.mpr hdev), List.find?_cons_of_pos (by simpa using hdev)]
    · rw [if_neg (mt hnamed.mp hdev), List.find?_cons_of_neg (by simpa using hdev)]
      exact ih

end GeekOS.Dev
