import GeekOS.Console.Screen

/-!
# The cursor of the console

Every operation of `x86_cons.c` from any state whose cursor is on the screen, whatever is in the video
memory and in the registers of the controller.

* `OnScreen`: the cursor is on the screen, as it is before and after each call;
* `exec_leads`: then no assertion and no store fails;
* `runCalls_onScreen`: the cursor and the stores of any calls, and what the controller has been told.
-/

namespace GeekOS.Console

open AddressLoop Terminal

/-- The cursor is on the screen. -/
def OnScreen (s : X86cons) : Prop := s.y < 25 ∧ s.x < 80

variable {s s' : X86cons} {attr : UInt8} {t : Terminal} {mem : Mem}

theorem Depicts.onScreen (h : Depicts attr s t) : OnScreen s :=
  ⟨h.y ▸ t.row.isLt, h.x ▸ t.col.isLt⟩

/-- Whatever is in the video memory, it is the cells of a terminal. -/
theorem OnScreen.depicts (h : OnScreen s) : ∃ t, Depicts s.attr s t :=
  ⟨⟨fun r c => cellAt s.mem (80 * r.val + c.val), ⟨s.y, h.1⟩, ⟨s.x, h.2⟩⟩, fun _ _ => rfl, rfl, rfl,
    rfl⟩

/-! ## Runs -/

theorem x86consMovecurs_onScreen (h : OnScreen s) (row col : ℤ) :
    OnScreen (x86consMovecurs row col s) := by
  unfold x86consMovecurs
  split
  next hvalid =>
    unfold vgaNumrows vgaNumcols at hvalid
    unfold OnScreen x86consUpdatecurs
    dsimp only
    omega
  next => exact h

/-- The controller has been told last where the cursor is. -/
def Programmed (s : X86cons) : Prop := s.crt.cursor = s.y * vgaNumcols + s.x

theorem Shows.programmed (h : Shows attr s t) : Programmed s := by
  have hcursor := h.cursor
  unfold Programmed vgaNumcols
  rw [hcursor, h.y, h.x]
  omega

/-- The state after the call `o`. -/
structure Leads (o : Call) (s s' : X86cons) : Prop where
  ok : o.exec s = .ok s'
  onScreen : OnScreen s'
  programmed : Programmed s ∨ o = .op .clear → Programmed s'

theorem exec_putchar (h : OnScreen s) (ch : ℤ) :
    ∃ s', x86consPutchar ch s = .ok s' ∧ OnScreen s' ∧ Programmed s' := by
  obtain ⟨t, ht⟩ := h.depicts
  obtain ⟨s', hok, hshows⟩ := @x86consPutchar_shows _ _ _ ch ht
  exact ⟨s', hok, hshows.onScreen, hshows.programmed⟩

theorem exec_write (h : OnScreen s) (str : List ℤ) :
    ∃ s', x86consWrite str s = .ok s' ∧ OnScreen s' ∧ (Programmed s → Programmed s') := by
  induction str generalizing s with
  | nil => exact ⟨s, rfl, h, id⟩
  | cons ch str ih =>
    unfold x86consWrite
    by_cases hch : ch = 0
    · rw [if_pos hch]
      exact ⟨s, rfl, h, id⟩
    · rw [if_neg hch]
      obtain ⟨s₁, hok₁, h₁, hprogrammed⟩ := exec_putchar h ch
      obtain ⟨s₂, hok₂, h₂, hkept⟩ := ih h₁
      rw [hok₁]
      exact ⟨s₂, hok₂, h₂, fun _ => hkept hprogrammed⟩

/-- No call fails while the cursor is on the screen, and the cursor stays there. -/
theorem exec_leads (h : OnScreen s) (o : Call) : ∃ s', Leads o s s' := by
  obtain ⟨t, ht⟩ := h.depicts
  cases o with
  | write str =>
    obtain ⟨s', hok, h', hkept⟩ := exec_write h str
    exact ⟨s', hok, h', fun hp => hkept (hp.resolve_right nofun)⟩
  | op o =>
    cases o with
    | clear =>
      obtain ⟨s', hok, hshows⟩ := x86consClear_shows (s := s)
      exact ⟨s', hok, hshows.onScreen, fun _ => hshows.programmed⟩
    | movecurs row col =>
      refine ⟨x86consMovecurs row col s, rfl, x86consMovecurs_onScreen h row col, fun hp => ?_⟩
      have hs : Programmed s := hp.resolve_right nofun
      -- where the cursor does not move, the controller goes on to show it there
      have hshows : Shows s.attr s t := ⟨ht, by
        rw [hs, ht.y, ht.x]
        unfold vgaNumcols
        omega⟩
      exact (x86consMovecurs_shows hshows).programmed
    | putchar ch =>
      obtain ⟨s', hok, h', hprogrammed⟩ := exec_putchar h ch
      exact ⟨s', hok, h', fun _ => hprogrammed⟩
    | cleartoeol =>
      obtain ⟨s', hok, h', hcrt⟩ := x86consCleartoeol_depicts ht
      refine ⟨s', hok, h'.onScreen, fun hp => ?_⟩
      have hs : Programmed s := hp.resolve_right nofun
      -- the cursor stays where it is
      have hy : s'.y = s.y := h'.y.trans ht.y.symm
      have hx : s'.x = s.x := h'.x.trans ht.x.symm
      unfold Programmed
      rw [hcrt, hy, hx]
      exact hs

/-- Calls one after the other. -/
theorem runCalls_leads (h : OnScreen s) (calls : List Call) :
    ∃ s', runCalls s calls = .ok s' ∧ OnScreen s' ∧
      (Programmed s ∨ .op .clear ∈ calls → Programmed s') := by
  induction calls generalizing s with
  | nil => exact ⟨s, rfl, h, fun hp => hp.resolve_right List.not_mem_nil⟩
  | cons o calls ih =>
    obtain ⟨s₁, h₁⟩ := exec_leads h o
    obtain ⟨s₂, hok₂, h₂, hprogrammed⟩ := ih h₁.onScreen
    refine ⟨s₂, ?_, h₂, fun hp => hprogrammed ?_⟩
    · rw [runCalls, List.foldlM_cons, h₁.ok]
      exact hok₂
    · -- after the first clear, or before it
      rcases hp with hp | hmem
      · exact .inl (h₁.programmed (.inl hp))
      · rcases List.mem_cons.mp hmem with rfl | hmem
        · exact .inl (h₁.programmed (.inr rfl))
        · exact .inr hmem

/-- `s_xcons`, with any bytes in the video memory and the registers. -/
def initialCons (mem : Mem) (crt : Crt) : X86cons := ⟨mem, crt, 0, 0, 7⟩

/-- Whatever is called, the assertion does not fail, no byte is stored outside of the video memory,
the cursor is on the screen, and once the screen has been cleared the controller shows it there. -/
theorem runCalls_onScreen (mem : Mem) (crt : Crt) (calls : List Call) :
    ∃ s, runCalls (initialCons mem crt) calls = .ok s ∧ s.y < 25 ∧ s.x < 80 ∧
      (.op .clear ∈ calls → s.crt.cursor = s.y * 80 + s.x) := by
  have hinitial : OnScreen (initialCons mem crt) := ⟨Nat.succ_pos _, Nat.succ_pos _⟩
  obtain ⟨s, hok, h, hprogrammed⟩ := runCalls_leads hinitial calls
  exact ⟨s, hok, h.1, h.2, fun hmem => hprogrammed (.inr hmem)⟩

end GeekOS.Console
