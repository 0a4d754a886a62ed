import GeekOS.Game.Peterson
import GeekOS.Game.TicTacToe

/-!
# Joining a game

Two threads call `join_tictactoe_game`. The test of the status is outside of the atomic sections
that act on it, so a thread can join a game, or start one, that is not the game it has looked at.

* `Phase`: how far the two calls have come, and whether one of them has tested the status behind
  the other one;
* `joinedRight_iff_testsBehind`: the threads get different roles in one game if and only if one of
  them tests the status when the other one has returned;
* `JoinedRight.started`: a game joined so is one whose turns `gameRight_iff_decides` is about.
-/

namespace GeekOS.Game

open TransitionSystem

/-- Where a thread is in `join_tictactoe_game`. -/
inductive JoinPc
  /-- At the test of the status. -/
  | test
  /-- At the atomic section behind it. -/
  | join
  /-- At the atomic section of `start_tictactoe_game`. -/
  | start
  /-- It has returned. -/
  | returned (c : Char)
  deriving DecidableEq, Repr

/-- The thread has not returned. -/
def JoinPc.inside : JoinPc → Bool
  | .returned _ => false
  | _ => true

/-- The game and the two threads. -/
structure JoinState where
  game : Tictactoe
  pc : Fin 2 → JoinPc

/-- What the atomic section of `join_tictactoe_game` stores. -/
def Tictactoe.join (g : Tictactoe) (pid : ℕ) : Tictactoe :=
  { g with playerO := pid, status := .gamePlaying }

/-- `start_tictactoe_game`. -/
def Tictactoe.start (pid : ℕ) : Tictactoe where
  grid _ := blank
  playerX := pid
  playerO := 0
  winner := 0
  status := .gameReady

/-- The index that `peterson_player` passes to `peterson`. -/
def petersonIndex (c : Char) : PetersonIndex := if c = 'X' then .pI else .pJ

namespace JoinState

variable (pid : Fin 2 → ℕ) (s : JoinState)

/-- The next step of a thread in `join_tictactoe_game`. -/
def exec (t : Fin 2) : JoinState :=
  match s.pc t with
  | .test =>
      if s.game.status = .gameReady then { s with pc := Function.update s.pc t .join }
      else { s with pc := Function.update s.pc t .start }
  | .join => { game := s.game.join (pid t), pc := Function.update s.pc t (.returned 'O') }
  | .start => { game := .start (pid t), pc := Function.update s.pc t (.returned 'X') }
  | .returned _ => s

/-- The thread has returned. -/
def Returned (t : Fin 2) : Prop := ∃ c, s.pc t = .returned c

/-- A thread that has not returned takes a step. -/
def Step (pid : Fin 2 → ℕ) (s : JoinState) (t : Fin 2) (s' : JoinState) : Prop :=
  ¬s.Returned t ∧ s' = s.exec pid t

/-- The threads are in front of their calls, and no game is waiting for a second player. -/
structure Initial : Prop where
  pc : ∀ t, s.pc t = .test
  status : s.game.status = .gameOpen ∨ s.game.status = .gameDone

/-- One of the threads has got the one role and the other thread the other role in a game that is
on, and they have different indices for `peterson`. -/
structure JoinedRight : Prop where
  roles : ∃ t : Fin 2, s.pc t = .returned 'X' ∧ s.pc t.rev = .returned 'O' ∧
    s.game.playerX = pid t ∧ s.game.playerO = pid t.rev
  status : s.game.status = .gamePlaying
  index : ∀ c c', s.pc 0 = .returned c → s.pc 1 = .returned c' → petersonIndex c ≠ petersonIndex c'

/-- The thread is about to test the status, and the other one has returned. -/
def TestsBehind (t : Fin 2) : Prop := s.pc t = .test ∧ s.Returned t.rev

/-- The game that a thread has started, and that nobody has played. -/
structure StartedBy (g : Tictactoe) (pid : ℕ) : Prop where
  playerX : g.playerX = pid
  grid : ∀ cell, g.grid cell = blank
  winner : g.winner = 0

/-- How far the calls have come. The flag tells whether one thread has tested the status behind the
other one. -/
inductive Phase (pid : Fin 2 → ℕ) (s : JoinState) : Bool → Prop
  | nobody (hpc : ∀ t, s.pc t = .test ∨ s.pc t = .start) (hstatus : s.game.status ≠ .gameReady) :
      Phase pid s false
  | waiting {t : Fin 2} (ht : s.pc t = .returned 'X') (hother : s.pc t.rev = .test)
      (hstatus : s.game.status = .gameReady) (hgame : StartedBy s.game (pid t)) : Phase pid s false
  | late {t : Fin 2} (ht : s.pc t = .returned 'X') (hother : s.pc t.rev = .start) :
      Phase pid s false
  | twice (hpc : ∀ t, s.pc t = .returned 'X') : Phase pid s false
  | joining {t : Fin 2} (ht : s.pc t = .returned 'X') (hother : s.pc t.rev = .join)
      (hgame : StartedBy s.game (pid t)) : Phase pid s true
  | joined {t : Fin 2} (ht : s.pc t = .returned 'X') (hother : s.pc t.rev = .returned 'O')
      (hstatus : s.game.status = .gamePlaying) (hplayer : s.game.playerO = pid t.rev)
      (hgame : StartedBy s.game (pid t)) : Phase pid s true

variable {pid s} {s' s₀ : JoinState} {t u : Fin 2} {b : Bool} {tr : List (JoinState × Fin 2)}

theorem rev_ne (t : Fin 2) : t.rev ≠ t := by
  revert t
  decide

theorem eq_or_eq_rev (t u : Fin 2) : u = t ∨ u = t.rev := by
  revert t u
  decide

theorem Initial.phase (h : s.Initial) : Phase pid s false := by
  refine .nobody (fun t => .inl (h.pc t)) ?_
  rcases h.status with hs | hs <;> rw [hs] <;> decide

/-- Where a thread has returned, the step is one of the other thread. -/
theorem eq_rev_of_step (hnot : ¬s.Returned u) {c : Char} (ht : s.pc t = .returned c) :
    u = t.rev := by
  rcases eq_or_eq_rev t u with rfl | hu
  · exact absurd ⟨c, ht⟩ hnot
  · exact hu

/-- A thread that has returned stays where it is. -/
theorem pc_rev_of_step {q : JoinPc} (u : Fin 2) : Function.update s.pc u q u.rev = s.pc u.rev :=
  Function.update_of_ne (rev_ne u) ..

/-- A step leads from one phase to the next, and it tests behind the other thread where it leads to
a join. -/
theorem Phase.step (h : Phase pid s b) (hs : Step pid s u s') :
    ∃ b', Phase pid s' b' ∧ (b' = true ↔ b = true ∨ s.TestsBehind u) := by
  obtain ⟨hnot, rfl⟩ := hs
  cases h with
  | nobody hpc hstatus =>
    have hbehind : ¬s.TestsBehind u := by
      rintro ⟨-, c, hc⟩
      rcases hpc u.rev with h | h <;> rw [hc] at h <;> cases h
    rcases hpc u with hu | hu
    · -- the game does not wait for a second player, so the thread is going to start one
      refine ⟨false, .nobody (fun v => ?_) ?_, by simp [hbehind]⟩ <;>
      simp only [exec, hu, if_neg hstatus]
      · rcases eq_or_ne v u with rfl | hne
        · exact .inr (Function.update_self ..)
        · rw [Function.update_of_ne hne]
          exact hpc v
      · exact hstatus
    · -- the thread starts a game, whatever the other one has done since the test
      have hexec : s.exec pid u =
          { game := .start (pid u), pc := Function.update s.pc u (.returned 'X') } := by
        simp only [exec, hu]
      rw [hexec]
      rcases hpc u.rev with hrev | hrev
      · exact ⟨false, .waiting (t := u) (Function.update_self ..) ((pc_rev_of_step u).trans hrev) rfl
          ⟨rfl, fun _ => rfl, rfl⟩, by simp [hbehind]⟩
      · exact ⟨false, .late (t := u) (Function.update_self ..) ((pc_rev_of_step u).trans hrev),
          by simp [hbehind]⟩
  | @waiting t ht hother hstatus hgame =>
    obtain rfl := eq_rev_of_step hnot ht
    -- the test behind the other thread
    have hexec : s.exec pid t.rev = { s with pc := Function.update s.pc t.rev .join } := by
      simp only [exec, hother, if_pos hstatus]
    have hpc : Function.update s.pc t.rev .join t = s.pc t := by
      simpa using pc_rev_of_step (q := .join) t.rev
    rw [hexec]
    exact ⟨true, .joining (t := t) (hpc.trans ht) (Function.update_self ..) hgame,
      by simp [TestsBehind, Returned, hother, ht]⟩
  | @late t ht hother =>
    obtain rfl := eq_rev_of_step hnot ht
    refine ⟨false, .twice fun v => ?_, by simp [TestsBehind, hother]⟩
    -- both have tested before a game was waiting, and the second game replaces the first
    simp only [exec, hother]
    rcases eq_or_eq_rev t v with rfl | rfl
    · rw [Function.update_of_ne (rev_ne v).symm, ht]
    · exact Function.update_self ..
  | twice hpc => exact absurd ⟨_, hpc u⟩ hnot
  | @joining t ht hother hgame =>
    obtain rfl := eq_rev_of_step hnot ht
    have hpc : Function.update s.pc t.rev (.returned 'O') t = s.pc t := by
      simpa using pc_rev_of_step (q := .returned 'O') t.rev
    simp only [exec, hother]
    exact ⟨true, .joined (t := t) (hpc.trans ht) (Function.update_self ..) rfl rfl
      ⟨hgame.playerX, hgame.grid, hgame.winner⟩, by simp⟩
  | @joined t ht hother =>
    obtain rfl := eq_rev_of_step hnot ht
    exact absurd ⟨_, hother⟩ hnot

/-- The phase at the end of a run. -/
theorem phase_of_run (hr : Run (Step pid) s₀ tr s) (h₀ : s₀.Initial) :
    ∃ b, Phase pid s b ∧ (b = true ↔ ∃ p ∈ tr, p.1.TestsBehind p.2) := by
  induction hr with
  | nil => exact ⟨false, h₀.phase, by simp⟩
  | @snoc s s' tr u hr hs ih =>
    obtain ⟨b, hphase, hb⟩ := ih
    obtain ⟨b', hphase', hb'⟩ := hphase.step hs
    exact ⟨b', hphase', by simp [hb', hb, or_and_right, exists_or]⟩

/-- From every state in which no game waits for a second player, and for every interleaving of the
two calls: the threads get different roles in one game if and only if one of them tests the status
after the other one has returned. -/
theorem joinedRight_iff_testsBehind (hr : Run (Step pid) s₀ tr s) (h₀ : s₀.Initial)
    (hend : ∀ t, s.Returned t) : s.JoinedRight pid ↔ ∃ p ∈ tr, p.1.TestsBehind p.2 := by
  obtain ⟨b, hphase, hb⟩ := phase_of_run hr h₀
  rw [← hb]
  cases hphase with
  | nobody hpc =>
    -- neither has returned, but both threads have
    obtain ⟨c, hc⟩ := hend 0
    rcases hpc 0 with h | h <;> rw [hc] at h <;> cases h
  | waiting ht hother | late ht hother | joining ht hother =>
    obtain ⟨c, hc⟩ := hend (Fin.rev _)
    rw [hother] at hc
    cases hc
  | twice hpc =>
    refine iff_of_false (fun h => ?_) Bool.false_ne_true
    -- both have started a game, so nobody has joined one
    obtain ⟨t, -, hO, -⟩ := h.roles
    rw [hpc] at hO
    cases hO
  | @joined t ht hother hstatus hplayer hgame =>
    refine iff_of_true ⟨⟨t, ht, hother, hgame.playerX, hplayer⟩, hstatus, fun c c' hc hc' => ?_⟩ rfl
    rcases eq_or_eq_rev 0 t with rfl | rfl
    · rw [ht] at hc
      obtain rfl := JoinPc.returned.inj hc
      obtain rfl := JoinPc.returned.inj (hother.symm.trans hc')
      decide
    · rw [show (0 : Fin 2).rev = 1 from rfl] at ht
      obtain rfl := JoinPc.returned.inj (ht.symm.trans hc')
      obtain rfl := JoinPc.returned.inj (hother.symm.trans hc)
      decide

/-- A game that has been joined so can be played. -/
theorem JoinedRight.started (hr : Run (Step pid) s₀ tr s) (h₀ : s₀.Initial)
    (h : s.JoinedRight pid) (i : ℕ) : State.Started { game := s.game, moves := moves, i } := by
  obtain ⟨b, hphase, -⟩ := phase_of_run hr h₀
  obtain ⟨t, hX, hO, -⟩ := h.roles
  cases hphase with
  | nobody hpc => rcases hpc t with hpc | hpc <;> rw [hX] at hpc <;> cases hpc
  | @waiting u ht hother | @late u ht hother | @joining u ht hother =>
    rcases eq_or_eq_rev u t with rfl | rfl
    · rw [hother] at hO
      cases hO
    · rw [hother] at hX
      cases hX
  | twice hpc =>
    rw [hpc] at hO
    cases hO
  | joined ht hother hstatus hplayer hgame =>
    exact ⟨State.moves_bijective, hgame.grid, hstatus, hgame.winner⟩

/-! ## Two orders of two calls -/

/-- The threads 3 and 4, before the first game. -/
def beforeGame : JoinState where
  game := { grid := fun _ => blank, playerX := 0, playerO := 0, status := .gameOpen, winner := 0 }
  pc _ := .test

/-- The process identifiers of the two threads. -/
def pids (t : Fin 2) : ℕ := t + 3

theorem beforeGame_initial : beforeGame.Initial := ⟨fun _ => rfl, .inl rfl⟩

/-- Steps of the threads in this order. -/
theorem exists_run_order (order : List (Fin 2))
    (h : comes (fun s t => (s.pc t).inside) (exec pids) beforeGame order = true) :
    ∃ tr, Run (Step pids) beforeGame tr (order.foldl (exec pids) beforeGame) ∧
      tr.map Prod.snd = order := by
  refine exists_run_foldl (fun s t => (s.pc t).inside) (exec pids) beforeGame order ?_ h
  rintro s t hinside
  refine ⟨?_, rfl⟩
  rintro ⟨c, hc⟩
  rw [hc] at hinside
  cases hinside

/-- Thread 4 looks at the status when thread 3 has started a game, and it joins this game. -/
theorem joinedRight_iff_testsBehind_inTurn :
    ∃ tr s, Run (Step pids) beforeGame tr s ∧ tr.map Prod.snd = [0, 0, 1, 1] ∧
      s.pc 0 = .returned 'X' ∧ s.pc 1 = .returned 'O' ∧ ∃ p ∈ tr, p.1.TestsBehind p.2 := by
  obtain ⟨tr, hr, htr⟩ := exists_run_order [0, 0, 1, 1] (by decide)
  have hpc : ∀ t, (([0, 0, 1, 1] : List (Fin 2)).foldl (exec pids) beforeGame).pc t =
      if t = 0 then .returned 'X' else .returned 'O' := by
    decide
  refine ⟨tr, _, hr, htr, hpc 0, hpc 1, (joinedRight_iff_testsBehind hr beforeGame_initial ?_).mp ?_⟩
  · intro t
    rw [Returned, hpc]
    split <;> exact ⟨_, rfl⟩
  · refine ⟨⟨0, hpc 0, hpc 1, rfl, rfl⟩, rfl, fun c c' hc hc' => ?_⟩
    obtain rfl := JoinPc.returned.inj ((hpc 0).symm.trans hc)
    obtain rfl := JoinPc.returned.inj ((hpc 1).symm.trans hc')
    decide

/-- Both threads look at the status before one of them has started a game. Both of them start one
and are player X, and the index for `peterson` is the same. -/
theorem not_joinedRight_testsBefore :
    ∃ tr s, Run (Step pids) beforeGame tr s ∧ tr.map Prod.snd = [0, 1, 0, 1] ∧
      (∀ t, s.pc t = .returned 'X') ∧ s.game.status = .gameReady ∧ ¬s.JoinedRight pids := by
  obtain ⟨tr, hr, htr⟩ := exists_run_order [0, 1, 0, 1] (by decide)
  have hpc : ∀ t, (([0, 1, 0, 1] : List (Fin 2)).foldl (exec pids) beforeGame).pc t =
      .returned 'X' := by
    decide
  refine ⟨tr, _, hr, htr, hpc, rfl, fun h => ?_⟩
  cases h.status

end JoinState

end GeekOS.Game
