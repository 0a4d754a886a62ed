import GeekOS.Library.Path
import GeekOS.Vfs.Transitions

/-!
# The list of file system drivers

`s_driver_list` is linked through the drivers themselves, and `vfs_register_fs_driver` does not ask
whether a driver is on the list already. A driver that is registered again closes the list to a
ring, and the search of `vfs_find_fs_driver` goes round for ever if it finds nothing there.

* `recent`: the drivers that a search comes to;
* `DriverList.path_register`: what registering does to the list;
* `findFsDriver_returns_iff`: the searches that return, and what they return;
* `findFsDriver_eq_vfsFindFsDriver`: the list of names of `vfs.c` is what this list stands for.
-/

namespace GeekOS.Vfs

open Result LinkedList

section Drivers

variable {D : Type} [DecidableEq D]

/-- `s_driver_list`, and the `next` fields of the drivers. -/
structure DriverList (D : Type) where
  sDriverList : Option D
  next : D → Option D

/-- `vfs_register_fs_driver`, under the mutex. -/
def DriverList.register (s : DriverList D) (fs : D) : DriverList D where
  sDriverList := some fs
  next := Function.update s.next fs s.sDriverList

/-- The list behind some calls of `vfs_register_fs_driver`. -/
def DriverList.registerAll (s : DriverList D) (drivers : List D) : DriverList D :=
  drivers.foldl DriverList.register s

variable (getName : D → Str) (name : Str)

/-- The loop of `vfs_find_fs_driver` from a driver on, as far as the fuel lasts, and what the
function returns. -/
def DriverList.findFrom (s : DriverList D) : ℕ → Option D → Option (Except ℤ D)
  | 0, _ => none
  | _ + 1, none => some (.error einval)
  | fuel + 1, some fsDriver =>
      if strcmp name (getName fsDriver) = 0 then some (.ok fsDriver)
      else s.findFrom fuel (s.next fsDriver)

/-- `vfs_find_fs_driver`, under the mutex. -/
def DriverList.findFsDriver (s : DriverList D) (fuel : ℕ) : Option (Except ℤ D) :=
  s.findFrom getName name fuel s.sDriverList

/-- The drivers that a search comes to when these have been registered, the last one first: each
of them once, up to the first that had been on the list already. -/
def recent : List D → List D
  | [] => []
  | d :: drivers => d :: (recent drivers).takeWhile (· ≠ d)

/-- What a search among some drivers is to return. -/
def searchResult (drivers : List D) : Except ℤ D :=
  match drivers.find? fun d => strcmp name (getName d) = 0 with
  | some d => .ok d
  | none => .error einval

/-! ## The drivers that a search comes to -/

variable {d fs : D} {drivers l : List D} {s : DriverList D}

theorem mem_of_mem_recent (h : d ∈ recent drivers) : d ∈ drivers := by
  induction drivers with
  | nil => exact h
  | cons a drivers ih =>
    rcases List.mem_cons.mp h with rfl | h
    · exact List.mem_cons_self
    · exact List.mem_cons_of_mem _ (ih ((List.takeWhile_sublist _).subset h))

theorem takeWhile_ne_of_not_mem (h : d ∉ l) : l.takeWhile (· ≠ d) = l := by
  rw [List.takeWhile_eq_self_iff]
  intro a ha
  have hne : a ≠ d := fun heq => h (heq ▸ ha)
  simpa using hne

theorem recent_of_nodup (h : drivers.Nodup) : recent drivers = drivers := by
  induction drivers with
  | nil => rfl
  | cons d drivers ih =>
    obtain ⟨hd, h⟩ := List.nodup_cons.mp h
    rw [recent, ih h, takeWhile_ne_of_not_mem hd]

/-- The drivers in front of the first place of one of them. -/
theorem takeWhile_ne_append {l₁ l₂ : List D} (h : fs ∉ l₁) :
    (l₁ ++ fs :: l₂).takeWhile (· ≠ fs) = l₁ := by
  have hpos : ∀ d ∈ l₁, decide (d ≠ fs) = true := by
    intro d hd
    have hne : d ≠ fs := fun heq => h (heq ▸ hd)
    simpa using hne
  rw [List.takeWhile_append_of_pos hpos, List.takeWhile_cons_of_neg (by simp), List.append_nil]

namespace DriverList

/-- Registering puts the driver in front. Where a search would have come to it, its new link closes
the list to a ring. -/
theorem path_register {back : Option D} (h : Path s.next s.sDriverList l back) (fs : D) :
    Path (s.register fs).next (s.register fs).sDriverList (fs :: l.takeWhile (· ≠ fs))
      (if fs ∈ l then some fs else back) := by
  have hlink : (s.register fs).next fs = s.sDriverList := Function.update_self ..
  have hother : ∀ {l : List D}, fs ∉ l → ∀ n ∈ l, (s.register fs).next n = s.next n := by
    intro l hfs n hn
    have hne : n ≠ fs := fun heq => hfs (heq ▸ hn)
    exact Function.update_of_ne hne ..
  refine ⟨rfl, ?_⟩
  rw [hlink]
  by_cases hfs : fs ∈ l
  · -- what was in front of the driver leads to it as before
    obtain ⟨l₁, l₂, rfl, hfs₁⟩ := List.eq_append_cons_of_mem hfs
    obtain ⟨r, hfront, rfl, -⟩ := path_append.mp h
    rw [if_pos hfs, takeWhile_ne_append hfs₁]
    exact hfront.congr (hother hfs₁)
  · rw [if_neg hfs, takeWhile_ne_of_not_mem hfs]
    exact h.congr (hother hfs)

/-- The list behind any calls: the drivers that were registered last, and behind them null, if none
was registered twice, or one of them. -/
theorem path_registerAll (hs : s.sDriverList = none) (drivers : List D) :
    ∃ back, Path (s.registerAll drivers).next (s.registerAll drivers).sDriverList
        (recent drivers.reverse) back ∧
      (back = none ↔ drivers.Nodup) ∧ ∀ d, back = some d → d ∈ recent drivers.reverse := by
  induction drivers using List.reverseRecOn with
  | nil => exact ⟨none, hs, by simp, by simp⟩
  | append_singleton drivers fs ih =>
    obtain ⟨back, hpath, hback, hmem⟩ := ih
    have hnodup : (drivers ++ [fs]).Nodup ↔ drivers.Nodup ∧ fs ∉ drivers := by
      rw [← List.nodup_reverse, List.reverse_append]
      simp [and_comm]
    have hstep := path_register hpath fs
    rw [registerAll, List.foldl_append, List.reverse_append, hnodup]
    refine ⟨_, hstep, ?_, ?_⟩
    · by_cases hfs : fs ∈ recent drivers.reverse
      · have hdrivers : fs ∈ drivers := List.mem_reverse.mp (mem_of_mem_recent hfs)
        simp [hfs, hdrivers]
      · rw [if_neg hfs, hback]
        refine ⟨fun h => ⟨h, fun hdrivers => hfs ?_⟩, And.left⟩
        rw [recent_of_nodup (List.nodup_reverse.mpr h)]
        exact List.mem_reverse.mpr hdrivers
    · intro d hd
      split at hd
      · obtain rfl := Option.some.inj hd
        exact List.mem_cons_self
      · next hfs =>
        have hrecent := hmem d hd
        rw [← takeWhile_ne_of_not_mem hfs] at hrecent
        exact List.mem_cons_of_mem _ hrecent

/-! ## The search -/

section Search

variable (getName : D → Str) (name : Str)

omit [DecidableEq D]

/-- A search along a path. -/
theorem findFrom_path {p q : Option D} (h : Path s.next p l q) (fuel : ℕ) :
    s.findFrom getName name (fuel + l.length + 1) p =
      match l.find? fun d => strcmp name (getName d) = 0 with
      | some d => some (.ok d)
      | none => s.findFrom getName name (fuel + 1) q := by
  induction l generalizing p with
  | nil =>
    obtain rfl : p = q := h
    rfl
  | cons d l ih =>
    obtain ⟨rfl, h⟩ := h
    rw [List.length_cons, ← Nat.add_assoc, findFrom, List.find?_cons]
    by_cases hd : strcmp name (getName d) = 0
    · simp [hd]
    · simpa [hd] using ih h

/-- A search that finds nothing in a ring does not return. -/
theorem findFrom_ring (hnone : ∀ d ∈ l, strcmp name (getName d) ≠ 0)
    (hnext : ∀ d ∈ l, ∃ d' ∈ l, s.next d = some d') (hd : d ∈ l) (fuel : ℕ) :
    s.findFrom getName name fuel (some d) = none := by
  induction fuel generalizing d with
  | zero => rfl
  | succ fuel ih =>
    obtain ⟨d', hd', hlink⟩ := hnext d hd
    rw [findFrom, if_neg (hnone d hd), hlink]
    exact ih hd'

/-- Along a list it returns. -/
theorem findFsDriver_list (h : Path s.next s.sDriverList l none) :
    s.findFsDriver getName name (l.length + 1) = some (searchResult getName name l) := by
  have hfrom := findFrom_path getName name h 0
  rw [Nat.zero_add] at hfrom
  rw [findFsDriver, hfrom, searchResult]
  split <;> rfl

variable {getName name}

theorem findFrom_mono {fuel more : ℕ} {p : Option D} {r : Except ℤ D}
    (h : s.findFrom getName name fuel p = some r) (hle : fuel ≤ more) :
    s.findFrom getName name more p = some r := by
  induction fuel generalizing p more with
  | zero => exact absurd h.symm (Option.some_ne_none r)
  | succ fuel ih =>
    obtain ⟨more, rfl⟩ : ∃ n, more = n + 1 := Nat.exists_eq_add_of_le' (Nat.le_of_add_left_le hle)
    cases p with
    | none => exact h
    | some d =>
      rw [findFrom] at h ⊢
      split at h
      next heq => rw [if_pos heq, h]
      next hne =>
        rw [if_neg hne]
        exact ih h (Nat.le_of_succ_le_succ hle)

end Search

end DriverList

/-- Whatever drivers have been registered, in any order and any number of times, a search returns
exactly if none of them was registered twice or the name is that of a driver it comes to; then it
returns the one of these that was registered last. -/
theorem findFsDriver_returns_iff {getName : D → Str} {s : DriverList D} (hs : s.sDriverList = none)
    (drivers : List D) (name : Str) (r : Except ℤ D) :
    (∃ fuel, (s.registerAll drivers).findFsDriver getName name fuel = some r) ↔
      r = searchResult getName name (recent drivers.reverse) ∧
        (drivers.Nodup ∨ ∃ d ∈ recent drivers.reverse, strcmp name (getName d) = 0) := by
  obtain ⟨back, hpath, hback, hmem⟩ := DriverList.path_registerAll hs drivers
  have hfrom := DriverList.findFrom_path getName name hpath
  -- with enough fuel, whatever a search returns is what it returns
  have hreturns : ∀ q : Except ℤ D, (∀ fuel, (s.registerAll drivers).findFrom getName name
      (fuel + (recent drivers.reverse).length + 1) (s.registerAll drivers).sDriverList = some q) →
      ((∃ fuel, (s.registerAll drivers).findFsDriver getName name fuel = some r) ↔ r = q) := by
    intro q hq
    constructor
    · rintro ⟨fuel, h⟩
      have hmore := DriverList.findFrom_mono h
        (Nat.le_add_right fuel ((recent drivers.reverse).length + 1))
      exact Option.some.inj (hmore.symm.trans (hq fuel))
    · rintro rfl
      exact ⟨_, hq 0⟩
  unfold searchResult
  cases hfind : (recent drivers.reverse).find? fun d => strcmp name (getName d) = 0 with
  | some d =>
    simp only [hfind] at hfrom
    have hd : ∃ d ∈ recent drivers.reverse, strcmp name (getName d) = 0 :=
      ⟨d, List.mem_of_find?_eq_some hfind, by simpa using List.find?_some hfind⟩
    rw [hreturns _ hfrom, and_iff_left (.inr hd)]
  | none =>
    simp only [hfind] at hfrom
    have hnone : ∀ d ∈ recent drivers.reverse, strcmp name (getName d) ≠ 0 := by
      simpa using List.find?_eq_none.mp hfind
    cases back with
    | none => rw [hreturns _ hfrom, and_iff_left (.inl (hback.mp rfl))]
    | some d =>
      -- the search goes round
      obtain ⟨⟨d₀, hd₀, hhead⟩, hnext⟩ := hpath.next_mem (hmem d rfl)
      constructor
      · rintro ⟨fuel, h⟩
        rw [DriverList.findFsDriver, hhead, DriverList.findFrom_ring getName name hnone hnext hd₀] at h
        exact absurd h.symm (Option.some_ne_none r)
      · rintro ⟨-, hnodup | ⟨d', hd', heq⟩⟩
        · exact absurd (hback.mpr hnodup) (Option.some_ne_none d)
        · exact absurd heq (hnone d' hd')

/-- A driver without a name that is registered twice: a search for it returns it, one for `p` does
not return. -/
theorem findFsDriver_twice :
    (∃ fuel, ((DriverList.mk none fun _ => none).registerAll [(), ()]).findFsDriver
      (fun _ => []) [] fuel = some (.ok ())) ∧
    ¬∃ r fuel, ((DriverList.mk none fun _ => none).registerAll [(), ()]).findFsDriver
      (fun _ => []) [⟨'p', by decide⟩] fuel = some r := by
  constructor
  · exact (findFsDriver_returns_iff rfl [(), ()] [] (.ok ())).mpr ⟨rfl, by decide⟩
  · rintro ⟨r, h⟩
    have hreturns := (findFsDriver_returns_iff rfl [(), ()] _ r).mp h
    exact absurd hreturns.2 (by decide)

/-- As long as no driver is registered twice, `vfs_find_fs_driver` does what it does on a list of
names. -/
theorem findFsDriver_eq_vfsFindFsDriver {T : Type} [DecidableEq T] {getName : D → Str}
    {s : DriverList D} (hs : s.sDriverList = none) {drivers : List D} (hnodup : drivers.Nodup)
    {v : State T} {t : T} (hv : v.driverList = drivers.reverse.map getName)
    (hfree : v.driverListMutex ≠ some t) (name : Str) :
    ∃ fuel r, (s.registerAll drivers).findFsDriver getName name fuel = some r ∧
      v.vfsFindFsDriver t name = .ok (r.map getName) := by
  obtain ⟨back, hpath, hback, -⟩ := DriverList.path_registerAll hs drivers
  rw [hback.mpr hnodup] at hpath
  refine ⟨_, _, DriverList.findFsDriver_list getName name hpath, ?_⟩
  rw [recent_of_nodup (List.nodup_reverse.mpr hnodup), State.vfsFindFsDriver_eq hfree, hv,
    searchResult]
  cases hfind : drivers.reverse.find? fun d => strcmp name (getName d) = 0 with
  | some d =>
    have hd := List.mem_map_of_mem (f := getName) (List.mem_of_find?_eq_some hfind)
    have hname : name = getName d := strcmp_eq_zero.mp (by simpa using List.find?_some hfind)
    rw [if_pos (hname ▸ hd), hname]
    rfl
  | none =>
    have hname : name ∉ drivers.reverse.map getName := by
      intro hmem
      obtain ⟨d, hd, heq⟩ := List.mem_map.mp hmem
      exact List.find?_eq_none.mp hfind d hd (by simpa using strcmp_eq_zero.mpr heq.symm)
    rw [if_neg hname]
    rfl

end Drivers

end GeekOS.Vfs
