import Mathlib.Data.Fin.VecNotation
import Mathlib.Data.Fintype.Prod
import Mathlib.Logic.Equiv.Basic
import Mathlib.Tactic.FinCases
import GeekOS.Library.Execution

/-!
# The game of `tictactoe.c`

`play_tictactoe` and the functions it calls, for the thread whose turn it is. The values of
`next_rand` come from an arbitrary sequence in place of the table `g_rand`. `plan_move` and
`print_board` only wait and print.

* `Tictactoe.HasLine`: three equal marks in a row, a column or a diagonal, and
  `findLine_eq_none`: the tests of `check_for_winner` miss none of them;
* `TurnRight`: what one turn is to do;
* `gameRight_iff_decides`: the turns of a game are right, and it is over after nine of them at
  most, if and only if no turn takes the last blank cell without completing a line: the test for a
  draw asks whether all cells are blank, where it should ask whether none is.
-/

namespace GeekOS.Game

open TransitionSystem

/-! ## The data -/

/-- The indices `[x][y]` of a cell. -/
abbrev Cell := Fin 3 × Fin 3

/-- `char grid[3][3]`. -/
abbrev Grid := Cell → Char

/-- A cell that nobody has marked. -/
def blank : Char := ' '

/-- `tictactoe_state_t`. -/
inductive TictactoeState
  | gameOpen | gameReady | gamePlaying | gameDone
  deriving DecidableEq, Repr

/-- `struct tictactoe_t`. The players are process identifiers. -/
structure Tictactoe where
  grid : Grid
  playerX : ℕ
  playerO : ℕ
  status : TictactoeState
  winner : ℕ

/-- `s_tictactoe`, the table `moves` and the counter inside `next_rand`. -/
structure State where
  game : Tictactoe
  moves : Fin 9 → Cell
  i : ℕ

/-- `moves`, as it is before the first shuffle. -/
def moves : Fin 9 → Cell :=
  ![(2, 0), (1, 1), (0, 2), (1, 2), (1, 0), (0, 0), (2, 2), (2, 1), (0, 1)]

/-! ## The functions -/

namespace Tictactoe

variable (g : Tictactoe)

/-- The mark of a player. -/
def mark (pid : ℕ) : Char := if pid = g.playerX then 'X' else 'O'

/-- The player to whom `assign_winner` assigns a mark. -/
def owner (c : Char) : ℕ := if c = 'X' then g.playerX else g.playerO

/-- `assign_winner`. -/
def assignWinner (c : Char) : Tictactoe :=
  if g.status ≠ .gamePlaying then g else { g with status := .gameDone, winner := g.owner c }

/-- `assign_draw`. -/
def assignDraw : Tictactoe :=
  if g.status ≠ .gamePlaying then g else { g with status := .gameDone }

/-- The cells that `check_for_winner` compares, in its order: the diagonals, and in each round of
its loop a row and a column. -/
def lines : List (Cell × Cell × Cell) :=
  [((0, 0), (1, 1), (2, 2)), ((2, 0), (1, 1), (0, 2))] ++
    (List.finRange 3).flatMap fun i =>
      [((i, 0), (i, 1), (i, 2)), ((0, i), (1, i), (2, i))]

/-- One of its tests: `val`, if it is not blank and equal to the other two. -/
def lineOf (grid : Grid) (l : Cell × Cell × Cell) : Option Char :=
  let val := grid l.1
  if val ≠ blank ∧ val = grid l.2.1 ∧ val = grid l.2.2 then some val else none

/-- The first line that `check_for_winner` finds. -/
def findLine (grid : Grid) : Option Char := lines.findSome? (lineOf grid)

/-- `draw` behind its loops. -/
def isDraw (grid : Grid) : Bool := decide (∀ cell, grid cell = blank)

/-- `check_for_winner`. -/
def checkForWinner : Tictactoe :=
  if g.status ≠ .gamePlaying then g
  else
    match findLine g.grid with
    | some val => g.assignWinner val
    | none => if isDraw g.grid then g.assignDraw else g

end Tictactoe

namespace State

variable (gRand : ℕ → ℕ) (s : State)

/-- `next_rand(9)`, as an index of `moves`. -/
def nextRand : Fin 9 × State := (Fin.ofNat 9 (gRand s.i), { s with i := s.i + 1 })

/-- One round of the loop of `shuffle_moves`. -/
def swapMoves : State :=
  let (a, s) := s.nextRand gRand
  let (b, s) := s.nextRand gRand
  let temp := s.moves a
  let moves := Function.update s.moves a (s.moves b)
  { s with moves := Function.update moves b temp }

/-- `shuffle_moves`. -/
def shuffleMoves : ℕ → State → State
  | 0, s => s
  | n + 1, s => shuffleMoves n (s.swapMoves gRand)

/-- The loop of `choose_move`: the first of the moves whose cell is blank. -/
def firstBlank : Option Cell :=
  ((List.finRange 9).find? fun i => s.game.grid (s.moves i) = blank).map s.moves

/-- `choose_move`. -/
def chooseMove (pid : ℕ) : State :=
  if s.game.status ≠ .gamePlaying then s
  else
    let c := s.game.mark pid
    let s := s.shuffleMoves gRand 5
    match s.firstBlank with
    | some cell =>
        { s with game := { s.game with grid := Function.update s.game.grid cell c } }
    | none => s

/-- `play_tictactoe`, called by the thread with this process identifier. -/
def playTictactoe (pid : ℕ) : State :=
  if s.game.status ≠ .gamePlaying then s
  else if pid ≠ s.game.playerX ∧ pid ≠ s.game.playerO then s
  else
    let s := s.chooseMove gRand pid
    { s with game := s.game.checkForWinner }

/-- One of the two players takes a turn in a game that is not over. -/
def Step (gRand : ℕ → ℕ) (s : State) (pid : ℕ) (s' : State) : Prop :=
  s.game.status = .gamePlaying ∧ (pid = s.game.playerX ∨ pid = s.game.playerO) ∧
    s' = s.playTictactoe gRand pid

end State

/-! ## Lines -/

namespace Tictactoe

/-- Three equal marks in a row, in a column or in a diagonal. -/
def HasLine (grid : Grid) (c : Char) : Prop :=
  (∃ x, ∀ y, grid (x, y) = c) ∨ (∃ y, ∀ x, grid (x, y) = c) ∨
    (∀ x, grid (x, x) = c) ∨ ∀ x : Fin 3, grid (x, x.rev) = c

instance (grid : Grid) (c : Char) : Decidable (HasLine grid c) :=
  inferInstanceAs (Decidable (_ ∨ _))

/-- Three equal marks of a player. -/
def Won (grid : Grid) : Prop := ∃ c, c ≠ blank ∧ HasLine grid c

variable {grid : Grid} {c c' : Char} {cell : Cell}

/-- `check_for_winner` goes through all rows, columns and diagonals. -/
theorem hasLine_iff : HasLine grid c ↔
    ∃ l ∈ lines, grid l.1 = c ∧ grid l.2.1 = c ∧ grid l.2.2 = c := by
  constructor
  · rintro (⟨x, h⟩ | ⟨y, h⟩ | h | h)
    · exact ⟨((x, 0), (x, 1), (x, 2)), by simp [lines], h 0, h 1, h 2⟩
    · exact ⟨((0, y), (1, y), (2, y)), by simp [lines], h 0, h 1, h 2⟩
    · exact ⟨((0, 0), (1, 1), (2, 2)), by simp [lines], h 0, h 1, h 2⟩
    · exact ⟨((2, 0), (1, 1), (0, 2)), by simp [lines], h 2, h 1, h 0⟩
  · rintro ⟨l, hl, h₁, h₂, h₃⟩
    -- an index is one of three
    have hthree : ∀ {p : Fin 3 → Prop}, p 0 → p 1 → p 2 → ∀ x, p x := fun h0 h1 h2 x => by
      fin_cases x <;> assumption
    simp only [lines, List.mem_append, List.mem_cons, List.not_mem_nil, or_false,
      List.mem_flatMap, List.mem_finRange, true_and] at hl
    rcases hl with (rfl | rfl) | ⟨i, rfl | rfl⟩
    · exact .inr (.inr (.inl (hthree h₁ h₂ h₃)))
    · exact .inr (.inr (.inr (hthree h₃ h₂ h₁)))
    · exact .inl ⟨i, hthree h₁ h₂ h₃⟩
    · exact .inr (.inl ⟨i, hthree h₁ h₂ h₃⟩)

theorem lineOf_eq_some {l : Cell × Cell × Cell} : lineOf grid l = some c ↔
    c ≠ blank ∧ grid l.1 = c ∧ grid l.2.1 = c ∧ grid l.2.2 = c := by
  unfold lineOf
  dsimp only
  split
  next h =>
    rw [Option.some.injEq]
    constructor
    · rintro rfl
      exact ⟨h.1, rfl, h.2.1.symm, h.2.2.symm⟩
    · exact fun h => h.2.1
  next h =>
    simp only [reduceCtorEq, false_iff]
    rintro ⟨hc, h₁, h₂, h₃⟩
    exact h ⟨h₁ ▸ hc, h₁.trans h₂.symm, h₁.trans h₃.symm⟩

theorem hasLine_of_findLine (h : findLine grid = some c) : c ≠ blank ∧ HasLine grid c := by
  obtain ⟨l, hl, hsome⟩ := List.exists_of_findSome?_eq_some h
  obtain ⟨hc, hline⟩ := lineOf_eq_some.mp hsome
  exact ⟨hc, hasLine_iff.mpr ⟨l, hl, hline⟩⟩

/-- No line is missed. -/
theorem findLine_eq_none : findLine grid = none ↔ ¬Won grid := by
  constructor
  · rintro h ⟨c, hc, hline⟩
    obtain ⟨l, hl, hl'⟩ := hasLine_iff.mp hline
    have hnone := List.findSome?_eq_none_iff.mp h l hl
    rw [lineOf_eq_some.mpr ⟨hc, hl'⟩] at hnone
    cases hnone
  · intro h
    by_contra hne
    obtain ⟨c, hsome⟩ := Option.ne_none_iff_exists'.mp hne
    exact h ⟨c, hasLine_of_findLine hsome⟩

/-- A line that a mark completes is one of this mark. -/
theorem eq_of_hasLine_update (hno : ¬HasLine grid c')
    (hline : HasLine (Function.update grid cell c) c') : c' = c := by
  obtain ⟨l, hl, h₁, h₂, h₃⟩ := hasLine_iff.mp hline
  by_contra hne
  -- a cell of the line that is not the marked one has its mark from before
  have hold : ∀ x, Function.update grid cell c x = c' → grid x = c' := by
    intro x hx
    rcases eq_or_ne x cell with rfl | hxne
    · rw [Function.update_self] at hx
      exact absurd hx.symm hne
    · rwa [Function.update_of_ne hxne] at hx
  exact hno (hasLine_iff.mpr ⟨l, hl, hold _ h₁, hold _ h₂, hold _ h₃⟩)

/-! ## Blank cells -/

/-- The number of blank cells. -/
def blanks (grid : Grid) : ℕ := (Finset.univ.filter fun cell => grid cell = blank).card

theorem blanks_eq_zero : blanks grid = 0 ↔ ∀ cell, grid cell ≠ blank := by
  simp [blanks, Finset.filter_eq_empty_iff]

/-- A mark takes one blank cell. -/
theorem blanks_update (hcell : grid cell = blank) (hc : c ≠ blank) :
    blanks (Function.update grid cell c) + 1 = blanks grid := by
  have herase : (Finset.univ.filter fun x => Function.update grid cell c x = blank) =
      (Finset.univ.filter fun x => grid x = blank).erase cell := by
    ext x
    rcases eq_or_ne x cell with rfl | hne
    · simp [hc]
    · simp [hne]
  rw [blanks, herase]
  exact Finset.card_erase_add_one (by simp [hcell])

/-- The last blank cell is the only one. -/
theorem eq_of_blanks_update
    (hlast : blanks (Function.update grid cell c) = 0) {x : Cell} (hx : grid x = blank) :
    x = cell := by
  by_contra hne
  refine blanks_eq_zero.mp hlast x ?_
  rwa [Function.update_of_ne hne]

variable {g : Tictactoe} {pid : ℕ}

theorem mark_ne_blank : g.mark pid ≠ blank := by
  unfold mark
  split <;> decide

/-- `check_for_winner` on a board that is not empty: it ends the game where there is a line. -/
theorem checkForWinner_cases (hplaying : g.status = .gamePlaying)
    (hmarked : ∃ cell, g.grid cell ≠ blank) :
    (∃ c, c ≠ blank ∧ HasLine g.grid c ∧
      g.checkForWinner = { g with status := .gameDone, winner := g.owner c }) ∨
    (¬Won g.grid ∧ g.checkForWinner = g) := by
  rw [checkForWinner, if_neg (not_not.mpr hplaying)]
  split
  next c hfind =>
    obtain ⟨hc, hline⟩ := hasLine_of_findLine hfind
    refine .inl ⟨c, hc, hline, ?_⟩
    rw [assignWinner, if_neg (not_not.mpr hplaying)]
  next hfind =>
    -- the draw is tested with the wrong sign
    obtain ⟨cell, hcell⟩ := hmarked
    have hdraw : isDraw g.grid = false := decide_eq_false fun h => hcell (h cell)
    exact .inr ⟨findLine_eq_none.mp hfind, by rw [hdraw, if_neg Bool.false_ne_true]⟩

end Tictactoe

/-! ## Turns -/

namespace State

open Tictactoe

variable {gRand : ℕ → ℕ} {s s' s₀ : State} {pid : ℕ} {tr : List (State × ℕ)}

theorem moves_bijective : Function.Bijective Game.moves :=
  (Fintype.bijective_iff_injective_and_card Game.moves).mpr ⟨by decide, by decide⟩

/-- A round of the shuffle exchanges two moves. -/
theorem swapMoves_moves (gRand : ℕ → ℕ) (s : State) :
    ∃ a b, (s.swapMoves gRand).moves = s.moves ∘ Equiv.swap a b := by
  refine ⟨Fin.ofNat 9 (gRand (s.i + 1)), Fin.ofNat 9 (gRand s.i), ?_⟩
  rw [Equiv.comp_swap_eq_update]
  rfl

/-- The moves stay a permutation of the cells, and the game is as it was. -/
theorem shuffleMoves_spec (gRand : ℕ → ℕ) (h : Function.Bijective s.moves) (n : ℕ) :
    Function.Bijective (s.shuffleMoves gRand n).moves ∧ (s.shuffleMoves gRand n).game = s.game := by
  induction n generalizing s with
  | zero => exact ⟨h, rfl⟩
  | succ n ih =>
    obtain ⟨a, b, hswap⟩ := swapMoves_moves gRand s
    exact ih (by rw [hswap]; exact h.comp (Equiv.bijective _))

/-- The search of `choose_move` finds a blank cell if there is one. -/
theorem firstBlank_spec (h : Function.Bijective s.moves) :
    (∃ cell, s.firstBlank = some cell ∧ s.game.grid cell = blank) ∨
    (s.firstBlank = none ∧ blanks s.game.grid = 0) := by
  unfold firstBlank
  cases hfind : (List.finRange 9).find? fun i => s.game.grid (s.moves i) = blank with
  | some i => exact .inl ⟨s.moves i, rfl, by simpa using List.find?_some hfind⟩
  | none =>
    refine .inr ⟨rfl, blanks_eq_zero.mpr fun cell => ?_⟩
    obtain ⟨i, rfl⟩ := h.surjective cell
    simpa using List.find?_eq_none.mp hfind i (List.mem_finRange i)

/-- `choose_move` puts the mark of the player into a blank cell, if there is one. -/
theorem chooseMove_spec (gRand : ℕ → ℕ) (pid : ℕ) (h : Function.Bijective s.moves)
    (hplaying : s.game.status = .gamePlaying) :
    Function.Bijective (s.chooseMove gRand pid).moves ∧
    ((∃ cell, s.game.grid cell = blank ∧ (s.chooseMove gRand pid).game =
      { s.game with grid := Function.update s.game.grid cell (s.game.mark pid) }) ∨
    (blanks s.game.grid = 0 ∧ (s.chooseMove gRand pid).game = s.game)) := by
  obtain ⟨hmoves, hgame⟩ := shuffleMoves_spec gRand h 5
  rw [chooseMove, if_neg (not_not.mpr hplaying)]
  dsimp only
  rcases firstBlank_spec hmoves with ⟨cell, hfind, hcell⟩ | ⟨hfind, hfull⟩
  · rw [hfind]
    rw [hgame] at hcell
    exact ⟨hmoves, .inl ⟨cell, hcell, by rw [hgame]⟩⟩
  · rw [hfind]
    rw [hgame] at hfull
    exact ⟨hmoves, .inr ⟨hfull, hgame⟩⟩

/-- What a turn of the player is to do. -/
structure TurnRight (s : State) (pid : ℕ) (s' : State) : Prop where
  /-- The table of moves is a permutation of the cells. -/
  moves : Function.Bijective s'.moves
  /-- One blank cell gets the mark of the player, and no other cell changes. -/
  places : ∃ cell, s.game.grid cell = blank ∧
    s'.game.grid = Function.update s.game.grid cell (s.game.mark pid)
  /-- The game is over if there is a line or no blank cell is left. -/
  gameDone : s'.game.status = .gameDone ↔ Won s'.game.grid ∨ ∀ cell, s'.game.grid cell ≠ blank
  /-- It goes on otherwise. -/
  goesOn : s'.game.status = .gameDone ∨ s'.game.status = .gamePlaying
  /-- A line makes the player who owns it the winner. -/
  winner : ∀ c, c ≠ blank → HasLine s'.game.grid c → s'.game.winner = s'.game.owner c
  /-- There is no winner otherwise. -/
  noWinner : ¬Won s'.game.grid → s'.game.winner = 0
  players : s'.game.playerX = s.game.playerX ∧ s'.game.playerO = s.game.playerO

/-- The turn leaves a blank cell behind, or it completes a line with the last one. -/
def Decides (s : State) (pid : ℕ) : Prop :=
  2 ≤ blanks s.game.grid ∨
    ∃ cell, (∀ x, s.game.grid x = blank ↔ x = cell) ∧
      HasLine (Function.update s.game.grid cell (s.game.mark pid)) (s.game.mark pid)

/-- The board is empty, and both players have joined. -/
structure Started (s : State) : Prop where
  moves : Function.Bijective s.moves
  grid : ∀ cell, s.game.grid cell = blank
  status : s.game.status = .gamePlaying
  winner : s.game.winner = 0

/-- While the game goes on there is neither a line nor a winner. -/
structure Ongoing (s : State) : Prop where
  moves : Function.Bijective s.moves
  line : s.game.status = .gamePlaying → ¬Won s.game.grid
  winner : s.game.status = .gamePlaying → s.game.winner = 0

theorem Started.ongoing (h : s.Started) : s.Ongoing := by
  refine ⟨h.moves, fun _ => ?_, fun _ => h.winner⟩
  rintro ⟨c, hc, hline⟩
  obtain ⟨l, -, hl, -⟩ := hasLine_iff.mp hline
  exact hc (hl ▸ h.grid l.1)

/-- A turn puts the mark of the player into a blank cell, which may complete a line of this mark.
On a full board it does nothing. -/
theorem Step.game_cases (hs : Step gRand s pid s') (h : s.Ongoing) :
    (∃ cell, s.game.grid cell = blank ∧
      (HasLine (Function.update s.game.grid cell (s.game.mark pid)) (s.game.mark pid) ∧
        s'.game = { s.game with
          grid := Function.update s.game.grid cell (s.game.mark pid)
          status := .gameDone
          winner := s.game.owner (s.game.mark pid) } ∨
      ¬Won (Function.update s.game.grid cell (s.game.mark pid)) ∧
        s'.game = { s.game with
          grid := Function.update s.game.grid cell (s.game.mark pid) })) ∨
    (blanks s.game.grid = 0 ∧ s'.game = s.game) := by
  obtain ⟨hplaying, hplayer, rfl⟩ := hs
  have hturn : (s.playTictactoe gRand pid).game = (s.chooseMove gRand pid).game.checkForWinner := by
    rw [playTictactoe, if_neg (not_not.mpr hplaying), if_neg (by tauto)]
  -- the turn is `choose_move` followed by the tests of the board
  obtain ⟨-, ⟨cell, hcell, hgame⟩ | ⟨hfull, hgame⟩⟩ :=
    chooseMove_spec gRand pid h.moves hplaying
  · refine .inl ⟨cell, hcell, ?_⟩
    rw [hturn, hgame]
    rcases checkForWinner_cases (g := { s.game with
        grid := Function.update s.game.grid cell (s.game.mark pid) }) hplaying
        ⟨cell, by simpa using mark_ne_blank⟩ with ⟨c, hc, hline, heq⟩ | ⟨hno, heq⟩
    · -- there was no line before, so it is one of the player
      obtain rfl := eq_of_hasLine_update (fun hold => h.line hplaying ⟨c, hc, hold⟩) hline
      exact .inl ⟨hline, heq⟩
    · exact .inr ⟨hno, heq⟩
  · refine .inr ⟨hfull, ?_⟩
    rw [hturn, hgame]
    rcases checkForWinner_cases (g := s.game) hplaying ⟨(0, 0), blanks_eq_zero.mp hfull _⟩ with
      ⟨c, hc, hline, -⟩ | ⟨-, heq⟩
    · exact absurd ⟨c, hc, hline⟩ (h.line hplaying)
    · exact heq

theorem Step.moves (hs : Step gRand s pid s') (h : Function.Bijective s.moves) :
    Function.Bijective s'.moves := by
  obtain ⟨hplaying, hplayer, rfl⟩ := hs
  rw [playTictactoe, if_neg (not_not.mpr hplaying), if_neg (by tauto)]
  exact (chooseMove_spec gRand pid h hplaying).1

theorem Ongoing.step (h : s.Ongoing) (hs : Step gRand s pid s') : s'.Ongoing := by
  refine ⟨hs.moves h.moves, fun hplaying => ?_, fun hplaying => ?_⟩ <;>
  rcases hs.game_cases h with ⟨cell, -, ⟨-, heq⟩ | ⟨hno, heq⟩⟩ | ⟨-, heq⟩ <;>
  rw [heq] at hplaying ⊢
  · cases hplaying
  · exact hno
  · exact h.line hplaying
  · cases hplaying
  · exact h.winner hplaying
  · exact h.winner hplaying

/-- A turn that decides is right. -/
theorem turnRight_of_decides (h : s.Ongoing) (hs : Step gRand s pid s') (hd : s.Decides pid) :
    TurnRight s pid s' := by
  have hplaying := hs.1
  -- a line, no line, or a full board on which the turn did nothing
  rcases hs.game_cases h with ⟨cell, hcell, ⟨hline, heq⟩ | ⟨hno, heq⟩⟩ | ⟨hfull, -⟩
  · -- the mark completes a line, and every line is one of this mark
    have hwon : Won s'.game.grid := ⟨_, mark_ne_blank, by rw [heq]; exact hline⟩
    refine ⟨hs.moves h.moves, ⟨cell, hcell, by rw [heq]⟩, ?_, .inl (by rw [heq]),
      fun c hc hc' => ?_, fun hnot => absurd hwon hnot, by rw [heq]; exact ⟨rfl, rfl⟩⟩
    · exact iff_of_true (by rw [heq]) (.inl hwon)
    · rw [heq] at hc' ⊢
      obtain rfl := eq_of_hasLine_update (fun hold => h.line hplaying ⟨c, hc, hold⟩) hc'
      rfl
  · have hleft : ¬∀ x, s'.game.grid x ≠ blank := by
      rw [← blanks_eq_zero, heq]
      have hcount := blanks_update (c := s.game.mark pid) hcell mark_ne_blank
      rcases hd with hd | ⟨last, hlast, hline⟩
      · dsimp only
        omega
      · -- the cell is the last one, and there is no line
        obtain rfl := (hlast cell).mp hcell
        exact absurd ⟨_, mark_ne_blank, hline⟩ hno
    have hnot : ¬Won s'.game.grid := by rwa [heq]
    refine ⟨hs.moves h.moves, ⟨cell, hcell, by rw [heq]⟩, ?_, .inr (by rw [heq]; exact hplaying),
      fun c hc hc' => absurd ⟨c, hc, hc'⟩ hnot, fun _ => ?_, by rw [heq]; exact ⟨rfl, rfl⟩⟩
    · refine iff_of_false (by rw [heq, hplaying]; decide) ?_
      rintro (hwon | hfull)
      · exact hnot hwon
      · exact hleft hfull
    · rw [heq]
      exact h.winner hplaying
  · rcases hd with hd | ⟨last, hlast, -⟩
    · omega
    · exact absurd ((hlast last).mpr rfl) (blanks_eq_zero.mp hfull last)

/-- A turn that is right decides. -/
theorem decides_of_turnRight (h : s.Ongoing) (hs : Step gRand s pid s')
    (hright : TurnRight s pid s') : s.Decides pid := by
  rcases hs.game_cases h with ⟨cell, hcell, hgame⟩ | ⟨hfull, -⟩
  · by_cases htwo : 2 ≤ blanks s.game.grid
    · exact .inl htwo
    · -- the cell is the last one, so the game must be over, and only a line ends it
      have hcount := blanks_update (c := s.game.mark pid) hcell mark_ne_blank
      have hlast : blanks (Function.update s.game.grid cell (s.game.mark pid)) = 0 := by omega
      refine .inr ⟨cell, fun x => ⟨eq_of_blanks_update hlast, fun hx => hx ▸ hcell⟩, ?_⟩
      rcases hgame with ⟨hline, -⟩ | ⟨-, heq⟩
      · exact hline
      · have hdone := hright.gameDone.mpr (.inr (by rw [heq]; exact blanks_eq_zero.mp hlast))
        rw [heq, hs.1] at hdone
        cases hdone
  · -- a turn on a full board puts no mark
    obtain ⟨cell, hcell, -⟩ := hright.places
    exact absurd hcell (blanks_eq_zero.mp hfull cell)

theorem turnRight_iff_decides (h : s.Ongoing) (hs : Step gRand s pid s') :
    TurnRight s pid s' ↔ s.Decides pid :=
  ⟨decides_of_turnRight h hs, turnRight_of_decides h hs⟩

/-- Every turn that is right takes a blank cell. -/
theorem TurnRight.blanks (h : TurnRight s pid s') :
    blanks s'.game.grid + 1 = blanks s.game.grid := by
  obtain ⟨cell, hcell, heq⟩ := h.places
  rw [heq]
  exact blanks_update hcell mark_ne_blank

/-- The turns of the game are right, and there are nine of them at most. -/
def GameRight (gRand : ℕ → ℕ) (tr : List (State × ℕ)) : Prop :=
  (∀ p ∈ tr, TurnRight p.1 p.2 (p.1.playTictactoe gRand p.2)) ∧ tr.length ≤ 9

theorem length_add_blanks (hr : Run (Step gRand) s₀ tr s) (h₀ : s₀.Started)
    (hright : ∀ p ∈ tr, TurnRight p.1 p.2 (p.1.playTictactoe gRand p.2)) :
    tr.length + Tictactoe.blanks s.game.grid = 9 := by
  induction hr with
  | nil => simp [Tictactoe.blanks, h₀.grid]
  | @snoc s s' tr pid hr hs ih =>
    -- each turn fills one of the nine cells
    have hprefix := ih fun p hp => hright p (List.mem_append_left _ hp)
    have hlast := hright (s, pid) (List.mem_append_right _ (List.mem_singleton_self _))
    rw [← hs.2.2] at hlast
    have hcount : Tictactoe.blanks s'.game.grid + 1 = Tictactoe.blanks s.game.grid := hlast.blanks
    rw [List.length_append, List.length_singleton]
    omega

/-- For every sequence of values of `next_rand` and every order of the turns: all turns of a game
are right, and the game is over after at most nine of them, if and only if no turn takes the last
blank cell without completing a line. -/
theorem gameRight_iff_decides (hr : Run (Step gRand) s₀ tr s) (h₀ : s₀.Started) :
    GameRight gRand tr ↔ ∀ p ∈ tr, p.1.Decides p.2 := by
  have hstep : ∀ p ∈ tr, TurnRight p.1 p.2 (p.1.playTictactoe gRand p.2) ↔ p.1.Decides p.2 := by
    intro p hp
    obtain ⟨hreach, s', hs⟩ := hr.step_of_mem hp
    have hongoing := hreach.invariant h₀.ongoing fun _ _ _ h hs => h.step hs
    rw [← hs.2.2]
    exact turnRight_iff_decides hongoing hs
  constructor
  · intro hgame p hp
    exact (hstep p hp).mp (hgame.1 p hp)
  · intro hd
    have hright := fun p hp => (hstep p hp).mpr (hd p hp)
    have hcount := length_add_blanks hr h₀ hright
    exact ⟨hright, by omega⟩

/-- A game whose turns are right is over when the board is full. -/
theorem status_of_full (hr : Run (Step gRand) s₀ tr s) (hne : tr ≠ []) (hright : GameRight gRand tr)
    (hfull : ∀ cell, s.game.grid cell ≠ blank) : s.game.status = .gameDone := by
  cases hr with
  | nil => exact absurd rfl hne
  | @snoc s₁ _ tr pid hr hs =>
    have hlast := hright.1 (s₁, pid) (List.mem_append_right _ (List.mem_singleton_self _))
    rw [← hs.2.2] at hlast
    exact hlast.gameDone.mpr (.inr hfull)

/-- On a full board without a line the game goes on for ever: no turn changes it. -/
theorem game_eq_of_full (hr : Run (Step gRand) s₀ tr s) (h₀ : s₀.Ongoing)
    (hfull : blanks s₀.game.grid = 0) : s.game = s₀.game := by
  have hinv : s.Ongoing ∧ s.game = s₀.game := by
    refine hr.invariant (I := fun s => s.Ongoing ∧ s.game = s₀.game) ⟨h₀, rfl⟩ ?_
    rintro s pid s' ⟨h, heq⟩ hs
    refine ⟨h.step hs, ?_⟩
    rcases hs.game_cases h with ⟨cell, hcell, -⟩ | ⟨-, heq'⟩
    · rw [heq] at hcell
      exact absurd hcell (blanks_eq_zero.mp hfull cell)
    · exact heq'.trans heq
  exact hinv.2

/-! ## A game without a line -/

/-- Who has the turn when the players 3 and 4 take turns. -/
def turnOf (n : ℕ) : ℕ := if n % 2 = 0 then 3 else 4

/-- The board after `n` turns, if nothing is shuffled. -/
def board (n : ℕ) : Grid := fun cell =>
  match (List.finRange 9).find? fun i => Game.moves i = cell with
  | some i => if i.val < n then (if i.val % 2 = 0 then 'X' else 'O') else blank
  | none => blank

/-- The state after `n` turns. -/
def afterTurns (n : ℕ) : State where
  game := { grid := board n, playerX := 3, playerO := 4, status := .gamePlaying, winner := 0 }
  moves := Game.moves
  i := 10 * n

theorem started_afterTurns : (afterTurns 0).Started :=
  ⟨moves_bijective, by decide, rfl, rfl⟩

/-- The shuffle may leave all moves where they are. -/
theorem shuffleMoves_zero (n : ℕ) :
    s.shuffleMoves (fun _ => 0) n = { s with i := s.i + 2 * n } := by
  induction n generalizing s with
  | zero => rfl
  | succ n ih =>
    have hswap : s.swapMoves (fun _ => 0) = { s with i := s.i + 2 } := by
      simp [swapMoves, nextRand, Function.update_eq_self]
    rw [shuffleMoves, hswap, ih]
    simp only [Nat.mul_succ, Nat.add_assoc, Nat.add_comm 2]

theorem firstBlank_board : ∀ n : Fin 9,
    ((List.finRange 9).find? fun i => board n (Game.moves i) = blank) = some n := by
  decide

theorem update_board : ∀ n : Fin 9, ∀ cell,
    Function.update (board n) (Game.moves n) (if n.val % 2 = 0 then 'X' else 'O') cell =
      board (n + 1) cell := by
  decide

theorem findLine_board : ∀ n : Fin 9, findLine (board (n + 1)) = none ∧
    isDraw (board (n + 1)) = false := by
  decide

/-- A turn on this board. -/
theorem step_afterTurns (n : Fin 9) :
    Step (fun _ => 0) (afterTurns n) (turnOf n) (afterTurns (n + 1)) := by
  have hmark : (afterTurns n).game.mark (turnOf n) = if n.val % 2 = 0 then 'X' else 'O' := by
    unfold turnOf
    split <;> rfl
  have hplayer : turnOf n = (afterTurns n).game.playerX ∨ turnOf n = (afterTurns n).game.playerO := by
    unfold turnOf
    split
    · exact .inl rfl
    · exact .inr rfl
  have hchoose : (afterTurns n).chooseMove (fun _ => 0) (turnOf n) = afterTurns (n + 1) := by
    have hfind : State.firstBlank { afterTurns n with i := (afterTurns n).i + 2 * 5 } =
        some (Game.moves n) := by
      rw [firstBlank]
      exact congrArg (Option.map Game.moves) (firstBlank_board n)
    rw [chooseMove, if_neg (by simp [afterTurns])]
    dsimp only
    rw [shuffleMoves_zero, hfind, hmark]
    simp only [afterTurns, funext (update_board n), Nat.mul_succ]
  refine ⟨rfl, hplayer, ?_⟩
  rw [playTictactoe, if_neg (by simp [afterTurns]), if_neg (by tauto), hchoose]
  have hcheck : (afterTurns (n + 1)).game.checkForWinner = (afterTurns (n + 1)).game := by
    rw [checkForWinner, if_neg (by simp [afterTurns])]
    change (match findLine (board (n + 1)) with
      | some val => _
      | none => if isDraw (board (n + 1)) then _ else _) = _
    rw [(findLine_board n).1, (findLine_board n).2]
    rfl
  dsimp only
  rw [hcheck]

theorem run_afterTurns {n : ℕ} (hn : n ≤ 9) : Run (Step fun _ => 0) (afterTurns 0)
    ((List.range n).map fun k => (afterTurns k, turnOf k)) (afterTurns n) := by
  induction n with
  | zero => exact .nil _
  | succ n ih =>
    rw [List.range_succ, List.map_append]
    exact (ih (by omega)).snoc (step_afterTurns ⟨n, hn⟩)

theorem two_le_blanks_board : ∀ n : Fin 8, 2 ≤ blanks (board n) := by decide

/-- The first eight turns are right. -/
theorem gameRight_iff_decides_eightTurns :
    ∃ tr s, Run (Step fun _ => 0) (afterTurns 0) tr s ∧ tr.length = 8 ∧ GameRight (fun _ => 0) tr := by
  have hr := run_afterTurns (n := 8) (by decide)
  refine ⟨_, _, hr, by simp, (gameRight_iff_decides hr started_afterTurns).mpr fun p hp => ?_⟩
  obtain ⟨n, hn, rfl⟩ := List.mem_map.mp hp
  exact .inl (two_le_blanks_board ⟨n, List.mem_range.mp hn⟩)

/-- The ninth turn fills the board without a line. It does not end the game, which goes on whatever
turns follow. -/
theorem not_gameRight_fullBoard :
    ∃ tr s, Run (Step fun _ => 0) (afterTurns 0) tr s ∧
      tr.map Prod.snd = [3, 4, 3, 4, 3, 4, 3, 4, 3] ∧ ¬GameRight (fun _ => 0) tr ∧
      (∀ cell, s.game.grid cell ≠ blank) ∧
      ∀ tr' s', Run (Step fun _ => 0) s tr' s' → s'.game.status = .gamePlaying := by
  have hr := run_afterTurns (n := 9) le_rfl
  have hfull : ∀ cell, board 9 cell ≠ blank := by decide
  have hongoing := hr.invariant started_afterTurns.ongoing fun _ _ _ h hs => h.step hs
  refine ⟨_, _, hr, rfl, fun hright => ?_, hfull, fun tr' s' hr' => ?_⟩
  · have hdone := status_of_full hr (by simp) hright hfull
    cases hdone
  · rw [game_eq_of_full hr' hongoing (blanks_eq_zero.mpr hfull)]
    rfl

end State

end GeekOS.Game
