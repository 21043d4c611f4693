import Mathlib.Algebra.Order.Group.Int
import Mathlib.Logic.Function.Basic
import HalOS.Lib.Outcome

/-!
# Snake

The game of `shell/snake.c`. The loop of `snake_game` is run one iteration at a time, each with the
key that is read in it and the two numbers that `rand` would return. An access to `body` from
`SNAKE_MAX_LENGTH` on fails with its index. Drawing is left out.

## Main results

* `moveBody_eq`: where the body is after a move, and when the move leaves the array.
* `staysWellFormed_iff`: the runs in which the state stays well formed.
-/

namespace HalOS

open Outcome (bind_eq_ok)

abbrev snakeMaxLength : ℕ := 100

/-- `Point`. -/
@[ext] structure Point where
  x : ℤ
  y : ℤ
deriving DecidableEq, Repr

/-- `Snake`. -/
structure Snake where
  body : ℕ → Point
  length : ℕ
  direction : Point

/-- `BOARD_WIDTH` and `BOARD_HEIGHT`: the board has a cell. -/
structure Board where
  width : ℕ
  height : ℕ
  width_pos : 0 < width
  height_pos : 0 < height

/-- The variables of the game, and those of `snake_game`. -/
structure SnakeGame where
  snake : Snake
  food : Point
  gameOver : Bool
  score : ℕ
  updateCounter : ℕ
  updateThreshold : ℤ
  lengthThreshold : ℕ

/-- What an iteration gets: a key if one has been pressed, and two values of `rand`. -/
structure SnakeInput where
  key : Option UInt8
  rand : ℕ × ℕ
deriving DecidableEq, Repr

namespace Snake

/-- `snake.body[i]`. -/
def read (s : Snake) (i : ℕ) : Except ℕ Point :=
  if i < snakeMaxLength then .ok (s.body i) else .error i

/-- `snake.body[i] = p`. -/
def write (s : Snake) (i : ℕ) (p : Point) : Except ℕ Snake :=
  if i < snakeMaxLength then .ok { s with body := Function.update s.body i p } else .error i

/-- `new_head`. -/
def newHead (s : Snake) : Point := ⟨(s.body 0).x + s.direction.x, (s.body 0).y + s.direction.y⟩

end Snake

/-- `rand() % BOARD_WIDTH` and `rand() % BOARD_HEIGHT`. -/
def Board.place (b : Board) (rand : ℕ × ℕ) : Point :=
  ⟨(rand.1 % b.width : ℕ), (rand.2 % b.height : ℕ)⟩

/-- `snake_handle_input`. -/
def snakeHandleInput (s : Snake) (key : UInt8) : Snake :=
  if key = 0x77 then if s.direction.y = 0 then { s with direction := ⟨0, -1⟩ } else s
  else if key = 0x73 then if s.direction.y = 0 then { s with direction := ⟨0, 1⟩ } else s
  else if key = 0x61 then if s.direction.x = 0 then { s with direction := ⟨-1, 0⟩ } else s
  else if key = 0x64 then if s.direction.x = 0 then { s with direction := ⟨1, 0⟩ } else s
  else s

/-- The loop of `snake_collision`, which has `n` cells to look at from `i` on. -/
def selfCollision (s : Snake) (head : Point) : ℕ → ℕ → Except ℕ Bool
  | 0, _ => .ok false
  | n + 1, i => do
      let p ← s.read i
      if p.x = head.x ∧ p.y = head.y then .ok true else selfCollision s head n (i + 1)

/-- `snake_collision`. -/
def snakeCollision (b : Board) (s : Snake) (head : Point) : Except ℕ Bool :=
  if head.x < 0 ∨ b.width ≤ head.x ∨ head.y < 0 ∨ b.height ≤ head.y then .ok true
  else selfCollision s head (s.length - 1) 1

/-- The loop of `snake_update` that moves the body. -/
def moveBody : ℕ → Snake → Except ℕ Snake
  | 0, s => .ok s
  | i + 1, s => do
      let p ← s.read i
      let s ← s.write (i + 1) p
      moveBody i s

/-- `snake_update`. -/
def snakeUpdate (b : Board) (g : SnakeGame) (rand : ℕ × ℕ) : Except ℕ SnakeGame :=
  if g.gameOver then .ok g
  else do
    let newHead := g.snake.newHead
    if ← snakeCollision b g.snake newHead then .ok { g with gameOver := true }
    else
      let moved ← moveBody g.snake.length g.snake
      let moved ← moved.write 0 newHead
      if newHead.x = g.food.x ∧ newHead.y = g.food.y then
        .ok { g with
          snake := { moved with length := moved.length + 1 }
          score := g.score + 1
          food := b.place rand }
      else .ok { g with snake := moved }

/-- `snake_init`; the rest of the body is left as it is. -/
def snakeInit (b : Board) (body : ℕ → Point) (rand : ℕ × ℕ) : SnakeGame where
  snake :=
    { body := Function.update body 0 ⟨(b.width / 2 : ℕ), (b.height / 2 : ℕ)⟩
      length := 1
      direction := ⟨1, 0⟩ }
  food := b.place rand
  gameOver := false
  score := 0
  updateCounter := 0
  updateThreshold := 25
  lengthThreshold := 5

/-- `snake_handle_input(kb_getchar())`, if a key has been pressed. -/
def SnakeGame.readKey (g : SnakeGame) (key : Option UInt8) : SnakeGame :=
  key.elim g fun key => { g with snake := snakeHandleInput g.snake key }

/-- `snake_update` is called in this iteration. -/
def SnakeGame.Due (g : SnakeGame) : Prop := g.updateThreshold ≤ g.updateCounter

instance (g : SnakeGame) : Decidable g.Due := inferInstanceAs (Decidable (_ ≤ _))

/-- The end of an iteration. -/
def SnakeGame.tick (g : SnakeGame) : SnakeGame :=
  if g.lengthThreshold ≤ g.snake.length then
    { g with
      updateThreshold := g.updateThreshold - 1
      lengthThreshold := g.lengthThreshold + 5
      updateCounter := g.updateCounter + 1 }
  else { g with updateCounter := g.updateCounter + 1 }

/-- An iteration of the loop of `snake_game`, which ends when the game is over. -/
def snakeStep (b : Board) (g : SnakeGame) (input : SnakeInput) : Except ℕ SnakeGame :=
  if g.gameOver then .ok g
  else
    let g := g.readKey input.key
    if g.Due then do
      let g ← snakeUpdate b g input.rand
      .ok { g with updateCounter := 0 }.tick
    else .ok g.tick

/-! ### Well-formed states -/

/-- The snake is on the board and does not cross itself, and the score is right. -/
structure SnakeGame.WellFormed (b : Board) (g : SnakeGame) : Prop where
  distinct : ∀ i j, i < j → j < g.snake.length → g.snake.body i ≠ g.snake.body j
  onBoard : ∀ i < g.snake.length, 0 ≤ (g.snake.body i).x ∧ (g.snake.body i).x < b.width ∧
    0 ≤ (g.snake.body i).y ∧ (g.snake.body i).y < b.height
  score_eq : g.score = g.snake.length - 1

/-- With the bounds on the length and a direction. -/
structure SnakeGame.Valid (b : Board) (g : SnakeGame) : Prop extends g.WellFormed b where
  length_pos : 1 ≤ g.snake.length
  length_le : g.snake.length ≤ snakeMaxLength
  moves : g.snake.direction ≠ ⟨0, 0⟩

/-- A snake that fills the array is moved on. -/
def SnakeGame.Overruns (b : Board) (g : SnakeGame) (input : SnakeInput) : Prop :=
  g.gameOver = false ∧ (g.readKey input.key).Due ∧
    snakeMaxLength ≤ (g.readKey input.key).snake.length ∧
    snakeCollision b (g.readKey input.key).snake (g.readKey input.key).snake.newHead = .ok false

/-! ### One update -/

namespace Snake

theorem read_of_lt {s : Snake} {i : ℕ} (h : i < snakeMaxLength) : s.read i = .ok (s.body i) :=
  if_pos h

theorem write_of_lt {s : Snake} {i : ℕ} (h : i < snakeMaxLength) (p : Point) :
    s.write i p = .ok { s with body := Function.update s.body i p } := if_pos h

end Snake

/-- Inside the array, the loop looks for the head. -/
theorem selfCollision_eq (s : Snake) (head : Point) (n i : ℕ) (h : i + n ≤ snakeMaxLength) :
    ∃ found, selfCollision s head n i = .ok found ∧
      (found = true ↔ ∃ j, i ≤ j ∧ j < i + n ∧ s.body j = head) := by
  induction n generalizing i with
  | zero => exact ⟨false, rfl, iff_of_false Bool.false_ne_true (by rintro ⟨j, hle, hlt, -⟩; omega)⟩
  | succ n ih =>
      have hloop : selfCollision s head (n + 1) i =
          if (s.body i).x = head.x ∧ (s.body i).y = head.y then .ok true
          else selfCollision s head n (i + 1) := by
        rw [selfCollision, Snake.read_of_lt (by omega)]
        rfl
      rw [hloop]
      by_cases hcell : (s.body i).x = head.x ∧ (s.body i).y = head.y
      · have hhead : s.body i = head := Point.mk.injEq .. ▸ hcell
        exact ⟨true, if_pos hcell, iff_of_true rfl ⟨i, Nat.le_refl i, by omega, hhead⟩⟩
      · obtain ⟨found, hfound, hiff⟩ := ih (i + 1) (by omega)
        refine ⟨found, (if_neg hcell).trans hfound, hiff.trans ⟨?_, ?_⟩⟩
        · rintro ⟨j, hle, hlt, hj⟩
          exact ⟨j, by omega, by omega, hj⟩
        · rintro ⟨j, hle, hlt, rfl⟩
          obtain rfl | hlt' := Nat.eq_or_lt_of_le hle
          · exact absurd ⟨rfl, rfl⟩ hcell
          · exact ⟨j, hlt', by omega, rfl⟩

/-- The body one cell further, with what its first cell is then. -/
def shifted (body : ℕ → Point) (n : ℕ) : ℕ → Point :=
  fun i => if 1 ≤ i ∧ i ≤ n then body (i - 1) else body i

/-- Where the body is after a move. -/
theorem moveBody_eq (s : Snake) {n : ℕ} (h : n < snakeMaxLength) :
    moveBody n s = .ok { s with body := shifted s.body n } := by
  induction n generalizing s with
  | zero =>
      have hbody : shifted s.body 0 = s.body := funext fun i => if_neg (by omega)
      rw [hbody]
      rfl
  | succ n ih =>
      have hloop : moveBody (n + 1) s =
          moveBody n { s with body := Function.update s.body (n + 1) (s.body n) } := by
        rw [moveBody, Snake.read_of_lt (by omega)]
        have hwrite := Snake.write_of_lt (s := s) h (s.body n)
        exact congrArg (· >>= moveBody n) hwrite
      have hbody :
          shifted (Function.update s.body (n + 1) (s.body n)) n = shifted s.body (n + 1) := by
        funext i
        rw [shifted, shifted]
        obtain rfl | hi := eq_or_ne i (n + 1)
        · rw [if_neg (by omega), if_pos (by omega), Function.update_self, Nat.add_sub_cancel]
        · rw [Function.update_of_ne hi]
          by_cases hin : 1 ≤ i ∧ i ≤ n
          · rw [if_pos hin, if_pos (by omega), Function.update_of_ne (by omega)]
          · rw [if_neg hin, if_neg (by omega)]
      rw [hloop, ih _ (by omega)]
      dsimp only
      rw [hbody]

/-- A move beyond the array fails. -/
theorem moveBody_overrun (s s' : Snake) {n : ℕ} (h : snakeMaxLength ≤ n) :
    moveBody n s ≠ .ok s' := by
  cases n with
  | zero => exact absurd h (by decide)
  | succ n =>
      intro hmove
      rw [moveBody] at hmove
      obtain ⟨p, -, hmove⟩ := bind_eq_ok.mp hmove
      obtain ⟨t, hwrite, -⟩ := bind_eq_ok.mp hmove
      rw [Snake.write, if_neg (by omega)] at hwrite
      cases hwrite

/-- The game after a move. -/
def SnakeGame.moved (b : Board) (g : SnakeGame) (rand : ℕ × ℕ) : SnakeGame :=
  let moved := { g.snake with
    body := Function.update (shifted g.snake.body g.snake.length) 0 g.snake.newHead }
  if g.snake.newHead.x = g.food.x ∧ g.snake.newHead.y = g.food.y then
    { g with
      snake := { moved with length := moved.length + 1 }
      score := g.score + 1
      food := b.place rand }
  else { g with snake := moved }

section Update

variable {b : Board} {g : SnakeGame} (rand : ℕ × ℕ)

theorem snakeUpdate_eq (hover : g.gameOver = false) : snakeUpdate b g rand =
    snakeCollision b g.snake g.snake.newHead >>= fun collided =>
      if collided then .ok { g with gameOver := true }
      else moveBody g.snake.length g.snake >>= fun moved =>
        moved.write 0 g.snake.newHead >>= fun moved =>
          if g.snake.newHead.x = g.food.x ∧ g.snake.newHead.y = g.food.y then
            .ok { g with
              snake := { moved with length := moved.length + 1 }
              score := g.score + 1
              food := b.place rand }
          else .ok { g with snake := moved } :=
  if_neg (ne_true_of_eq_false hover)

theorem snakeUpdate_collides (hover : g.gameOver = false)
    (h : snakeCollision b g.snake g.snake.newHead = .ok true) :
    snakeUpdate b g rand = .ok { g with gameOver := true } := by
  rw [snakeUpdate_eq rand hover, h]
  rfl

theorem snakeUpdate_moves (hover : g.gameOver = false)
    (h : snakeCollision b g.snake g.snake.newHead = .ok false)
    (hlength : g.snake.length < snakeMaxLength) :
    snakeUpdate b g rand = .ok (g.moved b rand) := by
  rw [snakeUpdate_eq rand hover, h, moveBody_eq _ hlength, SnakeGame.moved]
  dsimp only
  split_ifs <;> rfl

theorem snakeUpdate_overruns (hover : g.gameOver = false)
    (h : snakeCollision b g.snake g.snake.newHead = .ok false)
    (hlength : snakeMaxLength ≤ g.snake.length) (g' : SnakeGame) :
    snakeUpdate b g rand ≠ .ok g' := by
  rw [snakeUpdate_eq rand hover, h]
  intro hupdate
  obtain ⟨_, ⟨⟩, hupdate⟩ := bind_eq_ok.mp hupdate
  rw [if_neg Bool.false_ne_true] at hupdate
  obtain ⟨s, hmove, -⟩ := bind_eq_ok.mp hupdate
  exact moveBody_overrun _ _ hlength hmove

end Update

/-! ### What is kept -/

namespace SnakeGame

variable {b : Board} {g : SnakeGame}

/-- The head does not collide if it is on the board and no other cell is there. -/
theorem snakeCollision_eq (b : Board) (s : Snake) (head : Point) (h : s.length ≤ snakeMaxLength)
    (hpos : 1 ≤ s.length) :
    ∃ collided, snakeCollision b s head = .ok collided ∧ (collided = false ↔
      (0 ≤ head.x ∧ head.x < b.width ∧ 0 ≤ head.y ∧ head.y < b.height) ∧
        ∀ j, 1 ≤ j → j < s.length → s.body j ≠ head) := by
  rw [snakeCollision]
  split_ifs with hwall
  · exact ⟨true, rfl, iff_of_false (by decide) fun hfree => by omega⟩
  · obtain ⟨found, hfound, hiff⟩ := selfCollision_eq s head (s.length - 1) 1 (by omega)
    refine ⟨found, hfound, ?_⟩
    rw [← Bool.not_eq_true, hiff]
    constructor
    · exact fun hnone => ⟨by omega, fun j hle hlt hj => hnone ⟨j, hle, by omega, hj⟩⟩
    · rintro ⟨-, hfree⟩ ⟨j, hle, hlt, hj⟩
      exact hfree j hle (by omega) hj

theorem snakeHandleInput_keeps (s : Snake) (key : UInt8) :
    (snakeHandleInput s key).body = s.body ∧ (snakeHandleInput s key).length = s.length ∧
      (s.direction ≠ ⟨0, 0⟩ → (snakeHandleInput s key).direction ≠ ⟨0, 0⟩) := by
  rw [snakeHandleInput]
  split_ifs
  all_goals simp

theorem Valid.readKey (h : g.Valid b) (key : Option UInt8) : (g.readKey key).Valid b := by
  cases key with
  | none => exact h
  | some key =>
      obtain ⟨hbody, hlength, hdirection⟩ := snakeHandleInput_keeps g.snake key
      have hsnake : (g.readKey (some key)).snake = snakeHandleInput g.snake key := rfl
      refine ⟨⟨?_, ?_, ?_⟩, ?_, ?_, hdirection h.moves⟩
      · rw [hsnake, hbody, hlength]
        exact h.distinct
      · rw [hsnake, hbody, hlength]
        exact h.onBoard
      · rw [hsnake, hlength]
        exact h.score_eq
      · rw [hsnake, hlength]
        exact h.length_pos
      · rw [hsnake, hlength]
        exact h.length_le

/-- The state depends on the snake and the score. -/
theorem Valid.congr (h : g.Valid b) {g' : SnakeGame} (hsnake : g'.snake = g.snake)
    (hscore : g'.score = g.score) : g'.Valid b := by
  constructor
  · constructor
    · rw [hsnake]
      exact h.distinct
    · rw [hsnake]
      exact h.onBoard
    · rw [hsnake, hscore]
      exact h.score_eq
  · rw [hsnake]
    exact h.length_pos
  · rw [hsnake]
    exact h.length_le
  · rw [hsnake]
    exact h.moves

theorem Valid.tick (h : g.Valid b) : g.tick.Valid b := by
  rw [SnakeGame.tick]
  split_ifs
  · exact h.congr rfl rfl
  · exact h.congr rfl rfl

/-- The cells after a move to a free cell of the board: the head, and then those from before. -/
theorem Valid.moved_cells (h : g.Valid b)
    (hfree : snakeCollision b g.snake g.snake.newHead = .ok false) {body : ℕ → Point}
    (hbody : body = Function.update (shifted g.snake.body g.snake.length) 0 g.snake.newHead) :
    (∀ i j, i < j → j < g.snake.length + 1 → body i ≠ body j) ∧
      ∀ i < g.snake.length + 1, 0 ≤ (body i).x ∧ (body i).x < b.width ∧
        0 ≤ (body i).y ∧ (body i).y < b.height := by
  obtain ⟨collided, hcollided, hcells⟩ :=
    snakeCollision_eq b g.snake g.snake.newHead h.length_le h.length_pos
  obtain rfl := Except.ok.inj (hcollided.symm.trans hfree)
  obtain ⟨hboard, hother⟩ := hcells.mp rfl
  have hzero : body 0 = g.snake.newHead := by rw [hbody, Function.update_self]
  have hsucc {i : ℕ} (hi : i < g.snake.length) : body (i + 1) = g.snake.body i := by
    rw [hbody, Function.update_of_ne (Nat.succ_ne_zero i), shifted, if_pos (by omega)]
    rfl
  -- the snake has moved, so its head is not where it was
  have hneck : g.snake.body 0 ≠ g.snake.newHead := by
    intro heq
    have hx : (g.snake.body 0).x = (g.snake.body 0).x + g.snake.direction.x := congrArg Point.x heq
    have hy : (g.snake.body 0).y = (g.snake.body 0).y + g.snake.direction.y := congrArg Point.y heq
    exact h.moves (Point.ext (by dsimp only; omega) (by dsimp only; omega))
  constructor
  · intro i j hij hj
    obtain ⟨j, rfl⟩ : ∃ k, j = k + 1 := ⟨j - 1, by omega⟩
    rw [hsucc (by omega)]
    cases i with
    | zero =>
        rw [hzero]
        cases j with
        | zero => exact hneck.symm
        | succ j => exact (hother (j + 1) (by omega) (by omega)).symm
    | succ i =>
        rw [hsucc (by omega)]
        exact h.distinct i j (by omega) (by omega)
  · intro i hi
    cases i with
    | zero =>
        rw [hzero]
        exact hboard
    | succ i =>
        rw [hsucc (by omega)]
        exact h.onBoard i (by omega)

/-- A move to a free cell of the board. -/
theorem Valid.moved (h : g.Valid b) (hlength : g.snake.length < snakeMaxLength)
    (hfree : snakeCollision b g.snake g.snake.newHead = .ok false) (rand : ℕ × ℕ) :
    (g.moved b rand).Valid b := by
  obtain ⟨hdistinct, hboard⟩ := h.moved_cells hfree rfl
  have hscore := h.score_eq
  have hpos := h.length_pos
  rw [SnakeGame.moved]
  dsimp only
  split_ifs
  · refine ⟨⟨hdistinct, hboard, ?_⟩, Nat.le_add_left _ _, hlength, h.moves⟩
    dsimp only
    omega
  · exact ⟨⟨fun i j hij hj => hdistinct i j hij (Nat.lt_succ_of_lt hj),
      fun i hi => hboard i (Nat.lt_succ_of_lt hi), hscore⟩, hpos, h.length_le, h.moves⟩

theorem gameOver_readKey (g : SnakeGame) (key : Option UInt8) :
    (g.readKey key).gameOver = g.gameOver := by
  cases key with
  | none => rfl
  | some key => rfl

/-- An iteration with an update. -/
theorem snakeStep_due {input : SnakeInput} (hover : g.gameOver = false)
    (hdue : (g.readKey input.key).Due) :
    snakeStep b g input = snakeUpdate b (g.readKey input.key) input.rand >>= fun g =>
      .ok { g with updateCounter := 0 }.tick :=
  (if_neg (ne_true_of_eq_false hover)).trans (if_pos hdue)

/-- An iteration ends if it does not overrun the array. -/
theorem snakeStep_ok (h : g.Valid b) (input : SnakeInput) (hgood : ¬ g.Overruns b input) :
    ∃ g', snakeStep b g input = .ok g' ∧ g'.Valid b := by
  by_cases hover : g.gameOver = true
  · exact ⟨g, if_pos hover, h⟩
  have hplaying := eq_false_of_ne_true hover
  have hkey := h.readKey input.key
  by_cases hdue : (g.readKey input.key).Due
  · have hkeyOver : (g.readKey input.key).gameOver = false :=
      (gameOver_readKey g input.key).trans hplaying
    obtain ⟨collided, hcollided, -⟩ := snakeCollision_eq b (g.readKey input.key).snake
      (g.readKey input.key).snake.newHead hkey.length_le hkey.length_pos
    rw [snakeStep_due hplaying hdue]
    cases collided with
    | true =>
        rw [snakeUpdate_collides _ hkeyOver hcollided]
        exact ⟨_, rfl, Valid.tick (hkey.congr rfl rfl)⟩
    | false =>
        have hlength : (g.readKey input.key).snake.length < snakeMaxLength := by
          by_contra hlong
          exact hgood ⟨hplaying, hdue, Nat.not_lt.mp hlong, hcollided⟩
        rw [snakeUpdate_moves _ hkeyOver hcollided hlength]
        exact ⟨_, rfl, Valid.tick ((hkey.moved hlength hcollided input.rand).congr rfl rfl)⟩
  · exact ⟨_, (if_neg hover).trans (if_neg hdue), hkey.tick⟩

theorem snakeStep_overruns {input : SnakeInput} (hbad : g.Overruns b input) (g' : SnakeGame) :
    snakeStep b g input ≠ .ok g' := by
  obtain ⟨hover, hdue, hlength, hfree⟩ := hbad
  rw [snakeStep_due hover hdue]
  intro hstep
  obtain ⟨updated, hupdate, -⟩ := bind_eq_ok.mp hstep
  exact snakeUpdate_overruns _ ((gameOver_readKey g input.key).trans hover) hfree hlength _ hupdate

end SnakeGame

theorem valid_snakeInit (b : Board) (body : ℕ → Point) (rand : ℕ × ℕ) :
    (snakeInit b body rand).Valid b := by
  have hwidth := b.width_pos
  have hheight := b.height_pos
  have hlength : (1 : ℕ) ≤ snakeMaxLength := by decide
  have hmoves : (⟨1, 0⟩ : Point) ≠ ⟨0, 0⟩ := by decide
  refine ⟨⟨fun i j hij hj => ?_, fun i hi => ?_, rfl⟩, Nat.le_refl 1, hlength, hmoves⟩
  · dsimp only [snakeInit] at hj
    omega
  · dsimp only [snakeInit] at hi ⊢
    obtain rfl : i = 0 := by omega
    rw [Function.update_self]
    dsimp only
    omega

/-- The run of these inputs. -/
def snakeRun (b : Board) (body : ℕ → Point) (rand : ℕ × ℕ) (inputs : List SnakeInput) :
    Except ℕ SnakeGame :=
  inputs.foldlM (snakeStep b) (snakeInit b body rand)

/-- At any time of the run the array has not been left, and until the game is over its state is
well formed. -/
def StaysWellFormed (b : Board) (body : ℕ → Point) (rand : ℕ × ℕ) (inputs : List SnakeInput) :
    Prop :=
  ∀ first, first <+: inputs →
    ∃ g, snakeRun b body rand first = .ok g ∧ (g.gameOver = false → g.WellFormed b)

/-- **The state of the game** stays well formed exactly if no snake that fills the array is moved
on. -/
theorem staysWellFormed_iff (b : Board) (body : ℕ → Point) (rand : ℕ × ℕ)
    (inputs : List SnakeInput) :
    StaysWellFormed b body rand inputs ↔
      ∀ first input, first ++ [input] <+: inputs →
        ∀ g, snakeRun b body rand first = .ok g → ¬ g.Overruns b input :=
  Outcome.foldlM_safe_iff (P := fun g : SnakeGame => g.gameOver = false → g.WellFormed b)
    (fun _ _ _ hbad => SnakeGame.snakeStep_overruns hbad)
    (fun _ input h hgood => SnakeGame.snakeStep_ok h input hgood) (fun _ h _ => h.toWellFormed)
    (valid_snakeInit b body rand) inputs

/-! ### A long snake -/

/-- A screen of 3840 by 2160 pixels. -/
def largeBoard : Board := ⟨236, 131, by decide, by decide⟩

/-- The snake has eaten `n` times in a row, straight ahead, and there is more. -/
structure Ahead (n : ℕ) (g : SnakeGame) : Prop where
  length : g.snake.length = n + 1
  body : ∀ i ≤ n, g.snake.body i = ⟨118 + n - i, 65⟩
  direction : g.snake.direction = ⟨1, 0⟩
  food : g.food = ⟨119 + n, 65⟩
  playing : g.gameOver = false

theorem tick_keeps (g : SnakeGame) :
    g.tick.snake = g.snake ∧ g.tick.food = g.food ∧ g.tick.gameOver = g.gameOver := by
  rw [SnakeGame.tick]
  split_ifs
  · exact ⟨rfl, rfl, rfl⟩
  · exact ⟨rfl, rfl, rfl⟩

/-- An iteration brings the next update nearer. -/
theorem tick_counters (g : SnakeGame) :
    g.tick.updateThreshold ≤ g.updateThreshold ∧ g.tick.updateCounter = g.updateCounter + 1 := by
  rw [SnakeGame.tick]
  split_ifs
  · exact ⟨by dsimp only; omega, rfl⟩
  · exact ⟨le_refl _, rfl⟩

/-- Without a key the next update comes. -/
theorem exists_due (b : Board) (g : SnakeGame) (hplaying : g.gameOver = false) :
    ∃ (inputs : List SnakeInput) (g' : SnakeGame),
      inputs.foldlM (snakeStep b) g = .ok g' ∧ g'.Due ∧ g'.snake = g.snake ∧ g'.food = g.food ∧
        g'.gameOver = false := by
  obtain ⟨n, hn⟩ : ∃ n : ℕ, g.updateThreshold ≤ g.updateCounter + n :=
    ⟨g.updateThreshold.toNat, by omega⟩
  induction n generalizing g with
  | zero =>
      have hdue : g.Due := by simpa [SnakeGame.Due] using hn
      exact ⟨[], g, rfl, hdue, rfl, rfl, hplaying⟩
  | succ n ih =>
      by_cases hdue : g.Due
      · exact ⟨[], g, rfl, hdue, rfl, rfl, hplaying⟩
      obtain ⟨hsnake, hfood, hover⟩ := tick_keeps g
      obtain ⟨hthreshold, hcounter⟩ := tick_counters g
      obtain ⟨inputs, g', hrun, hdue', hsnake', hfood', hplaying'⟩ :=
        ih g.tick (hover.trans hplaying) (by rw [hcounter]; omega)
      have hstep : snakeStep b g ⟨none, (0, 0)⟩ = .ok g.tick :=
        (if_neg (ne_true_of_eq_false hplaying)).trans (if_neg hdue)
      refine ⟨⟨none, (0, 0)⟩ :: inputs, g', ?_, hdue', hsnake'.trans hsnake, hfood'.trans hfood,
        hplaying'⟩
      rw [List.foldlM_cons, hstep]
      exact hrun

namespace Ahead

variable {n : ℕ} {g : SnakeGame}

theorem congr (h : Ahead n g) {g' : SnakeGame} (hsnake : g'.snake = g.snake)
    (hfood : g'.food = g.food) (hplaying : g'.gameOver = false) : Ahead n g' where
  length := by rw [hsnake, h.length]
  body := by
    rw [hsnake]
    exact h.body
  direction := by rw [hsnake, h.direction]
  food := by rw [hfood, h.food]
  playing := hplaying

theorem due (h : Ahead n g) :
    ∃ (inputs : List SnakeInput) (g' : SnakeGame),
      inputs.foldlM (snakeStep largeBoard) g = .ok g' ∧ g'.Due ∧ Ahead n g' := by
  obtain ⟨inputs, g', hrun, hdue, hsnake, hfood, hplaying⟩ := exists_due largeBoard g h.playing
  exact ⟨inputs, g', hrun, hdue, h.congr hsnake hfood hplaying⟩

theorem newHead (h : Ahead n g) : g.snake.newHead = ⟨119 + n, 65⟩ := by
  rw [Snake.newHead, h.body 0 (Nat.zero_le n), h.direction]
  exact Point.ext (by dsimp only; omega) rfl

/-- The way is free. -/
theorem free (h : Ahead n g) (hn : n ≤ 99) :
    snakeCollision largeBoard g.snake g.snake.newHead = .ok false := by
  have hlength := h.length
  obtain ⟨collided, hcollided, hiff⟩ := SnakeGame.snakeCollision_eq largeBoard g.snake
    g.snake.newHead (by rw [hlength]; exact Nat.succ_le_succ hn) (by omega)
  have hfalse : collided = false := by
    rw [hiff, h.newHead]
    refine ⟨?_, fun j hj hlt heq => ?_⟩
    · dsimp only [largeBoard]
      omega
    · rw [h.body j (by omega)] at heq
      have hx := congrArg Point.x heq
      dsimp only at hx
      omega
  rw [hcollided, hfalse]

/-- The snake eats, and the next food is where it goes. -/
theorem moved (h : Ahead n g) (hn : n < 99) : Ahead (n + 1) (g.moved largeBoard (120 + n, 65)) := by
  have hfood : g.snake.newHead.x = g.food.x ∧ g.snake.newHead.y = g.food.y := by
    rw [h.newHead, h.food]
    exact ⟨rfl, rfl⟩
  have hplace : largeBoard.place (120 + n, 65) = ⟨119 + (n + 1 : ℕ), 65⟩ := by
    refine Point.ext ?_ rfl
    dsimp only [Board.place, largeBoard]
    omega
  rw [SnakeGame.moved, if_pos hfood]
  refine ⟨congrArg (· + 1) h.length, fun i hi => ?_, h.direction, hplace, h.playing⟩
  dsimp only
  cases i with
  | zero =>
      rw [Function.update_self, h.newHead]
      exact Point.ext (by dsimp only; omega) rfl
  | succ i =>
      have hlength := h.length
      rw [Function.update_of_ne (Nat.succ_ne_zero i), shifted, if_pos (by omega)]
      rw [Nat.succ_sub_one, h.body i (by omega)]
      exact Point.ext (by dsimp only; omega) rfl

theorem next (h : Ahead n g) (hn : n < 99) :
    ∃ (inputs : List SnakeInput) (g' : SnakeGame),
      inputs.foldlM (snakeStep largeBoard) g = .ok g' ∧ Ahead (n + 1) g' := by
  obtain ⟨wait, g', hwait, hdue, h'⟩ := h.due
  have hlength : g'.snake.length < snakeMaxLength := by
    rw [h'.length]
    exact Nat.succ_lt_succ hn
  have hstep : snakeStep largeBoard g' ⟨none, (120 + n, 65)⟩ =
      .ok { g'.moved largeBoard (120 + n, 65) with updateCounter := 0 }.tick := by
    have hdue' : (g'.readKey (SnakeInput.mk none (120 + n, 65)).key).Due := hdue
    rw [SnakeGame.snakeStep_due h'.playing hdue']
    have hupdate := snakeUpdate_moves (120 + n, 65) h'.playing (h'.free (by omega)) hlength
    exact congrArg (· >>= fun g => .ok (SnakeGame.tick { g with updateCounter := 0 })) hupdate
  have hmoved := h'.moved hn
  obtain ⟨hsnake, hfood, hover⟩ :=
    tick_keeps { g'.moved largeBoard (120 + n, 65) with updateCounter := 0 }
  refine ⟨wait ++ [⟨none, (120 + n, 65)⟩], _, ?_,
    hmoved.congr hsnake hfood (hover.trans hmoved.playing)⟩
  rw [Outcome.foldlM_append_of_ok hwait, List.foldlM_cons, hstep]
  rfl

end Ahead

theorem exists_ahead {n : ℕ} (hn : n ≤ 99) :
    ∃ inputs g, snakeRun largeBoard (fun _ => ⟨0, 0⟩) (119, 65) inputs = .ok g ∧ Ahead n g := by
  induction n with
  | zero =>
      refine ⟨[], _, rfl, rfl, fun i hi => ?_, rfl, rfl, rfl⟩
      obtain rfl : i = 0 := by omega
      rfl
  | succ n ih =>
      obtain ⟨inputs, g, hrun, hahead⟩ := ih (by omega)
      obtain ⟨more, g', hmore, hahead'⟩ := hahead.next (by omega)
      exact ⟨inputs ++ more, g', (Outcome.foldlM_append_of_ok hrun more).trans hmore, hahead'⟩

/-- On a large screen a snake can fill the array and go on. -/
theorem staysWellFormed_violated :
    ¬ ∀ b body rand inputs, StaysWellFormed b body rand inputs := by
  intro hall
  obtain ⟨inputs, g, hrun, hahead⟩ := exists_ahead (Nat.le_refl 99)
  obtain ⟨wait, g', hwait, hdue, hahead'⟩ := hahead.due
  have hbad : g'.Overruns largeBoard ⟨none, (0, 0)⟩ :=
    ⟨hahead'.playing, hdue, by rw [SnakeGame.readKey, Option.elim_none, hahead'.length],
      hahead'.free (Nat.le_refl 99)⟩
  have hrun' : snakeRun largeBoard (fun _ => ⟨0, 0⟩) (119, 65) (inputs ++ wait) = .ok g' :=
    (Outcome.foldlM_append_of_ok hrun wait).trans hwait
  obtain ⟨g'', hover, -⟩ := hall largeBoard (fun _ => ⟨0, 0⟩) (119, 65)
    ((inputs ++ wait) ++ [⟨none, (0, 0)⟩]) _ (List.prefix_refl _)
  rw [snakeRun, Outcome.foldlM_append_of_ok hrun', List.foldlM_cons] at hover
  obtain ⟨g₃, hstep, -⟩ := bind_eq_ok.mp hover
  exact SnakeGame.snakeStep_overruns hbad g₃ hstep

end HalOS
