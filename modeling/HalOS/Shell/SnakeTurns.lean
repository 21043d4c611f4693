import HalOS.Lib.Since
import HalOS.Shell.Snake

/-!
# How the Snake Turns

Between two calls of `snake_update` any number of keys may be handled. Here the game is a list of
events, of which a key is one and a call of `snake_update` the other; the loop of `snake_game` goes
through such a list.

`snake_handle_input` compares a key with the direction that the last key has left, and not with the
one in which the snake has moved.

## Main results

* `turn_eq_opposite_iff`: the keys after which the snake is about to go back.
* `neverTurnsBack_iff`: the games in which the head never meets the second cell of the body.
-/

namespace HalOS

open History (Since)
open Outcome (bind_eq_ok)

/-! ### Directions -/

namespace Point

/-- The product is zero: the two directions are at right angles. -/
def Across (p q : Point) : Prop := p.x * q.x + p.y * q.y = 0

instance (p q : Point) : Decidable (p.Across q) := inferInstanceAs (Decidable (_ = _))

def opposite (p : Point) : Point := ⟨-p.x, -p.y⟩

end Point

/-- The four directions. -/
def directions : List Point := [⟨0, -1⟩, ⟨0, 1⟩, ⟨-1, 0⟩, ⟨1, 0⟩]

/-- The direction that belongs to a key. -/
def keyDirection (key : UInt8) : Option Point :=
  if key = 0x77 then some ⟨0, -1⟩
  else if key = 0x73 then some ⟨0, 1⟩
  else if key = 0x61 then some ⟨-1, 0⟩
  else if key = 0x64 then some ⟨1, 0⟩
  else none

/-- The direction after a key. -/
def turn (d : Point) (key : UInt8) : Point :=
  (keyDirection key).elim d fun e => if e.Across d then e else d

theorem snakeHandleInput_eq (s : Snake) (key : UInt8) :
    snakeHandleInput s key = { s with direction := turn s.direction key } := by
  rw [snakeHandleInput, turn, keyDirection]
  split_ifs
  all_goals simp_all [Point.Across]

theorem keyDirection_mem {key : UInt8} {e : Point} (h : keyDirection key = some e) :
    e ∈ directions := by
  rw [keyDirection] at h
  split_ifs at h
  all_goals
    cases h
    simp [directions]

/-- All that a key does to one of the four directions, seen from another one. -/
theorem turn_table : ∀ m ∈ directions, ∀ d ∈ directions, ∀ e ∈ directions,
    (if e.Across d then e else d) ∈ directions ∧
      ((if e.Across d then e else d).Across m ↔ e.Across m) ∧
      ((if e.Across d then e else d) = m.opposite ↔
        e = m.opposite ∧ d.Across m ∨ d = m.opposite ∧ ¬ e.Across m) := by
  decide

/-- A key for a direction across `m`, and one for a direction along it. -/
def AcrossKey (m : Point) (key : UInt8) : Prop := ∃ e, keyDirection key = some e ∧ e.Across m

def AlongKey (m : Point) (key : UInt8) : Prop := ∃ e, keyDirection key = some e ∧ ¬ e.Across m

/-- A key across `m` has been pressed, and none along it since then. -/
def TurnedAcross (m : Point) (keys : List UInt8) : Prop :=
  Since (fun _ key => AcrossKey m key) (AlongKey m) keys

/-- With a key across `m` and then the key against it, no other along it in between, the snake has
been turned back, and no key across has been pressed since then. -/
def TurnsBack (m : Point) (keys : List UInt8) : Prop :=
  Since (fun before key => keyDirection key = some m.opposite ∧ TurnedAcross m before)
    (AcrossKey m) keys

section Keys

variable {m : Point} (hm : m ∈ directions)
include hm

theorem turn_mem {d : Point} (hd : d ∈ directions) (key : UInt8) : turn d key ∈ directions := by
  rw [turn]
  cases hkey : keyDirection key with
  | none => exact hd
  | some e => exact (turn_table m hm d hd e (keyDirection_mem hkey)).1

theorem foldl_turn_mem (keys : List UInt8) : keys.foldl turn m ∈ directions := by
  induction keys using List.reverseRecOn with
  | nil => exact hm
  | append_singleton keys key ih =>
      rw [List.foldl_append, List.foldl_cons, List.foldl_nil]
      exact turn_mem hm ih key

/-- The direction is across `m` after a key across it, and stays so up to a key along it. -/
theorem across_turn_iff {d : Point} (hd : d ∈ directions) (key : UInt8) :
    (turn d key).Across m ↔ AcrossKey m key ∨ (d.Across m ∧ ¬ AlongKey m key) := by
  rw [turn, AcrossKey, AlongKey]
  cases hkey : keyDirection key with
  | none => simp
  | some e =>
      have htable := (turn_table m hm d hd e (keyDirection_mem hkey)).2.1
      simp only [Option.elim_some, Option.some.injEq, exists_eq_left']
      rw [htable]
      tauto

/-- The direction is against `m` after the key against it if it was across, and stays so up to a
key across it. -/
theorem turn_eq_opposite_iff {d : Point} (hd : d ∈ directions) (key : UInt8) :
    turn d key = m.opposite ↔
      (keyDirection key = some m.opposite ∧ d.Across m) ∨ (d = m.opposite ∧ ¬ AcrossKey m key) := by
  rw [turn, AcrossKey]
  cases hkey : keyDirection key with
  | none => simp
  | some e =>
      have htable := (turn_table m hm d hd e (keyDirection_mem hkey)).2.2
      simp only [Option.elim_some, Option.some.injEq, exists_eq_left']
      exact htable

theorem across_foldl_turn_iff (keys : List UInt8) :
    (keys.foldl turn m).Across m ↔ TurnedAcross m keys := by
  refine History.foldl_iff_since (fun d : Point => d.Across m) ?_ ?_ keys
  · revert m
    decide
  · exact fun keys key => across_turn_iff hm (foldl_turn_mem hm keys) key

/-- **The keys** that turn the snake back. -/
theorem foldl_turn_eq_opposite_iff (keys : List UInt8) :
    keys.foldl turn m = m.opposite ↔ TurnsBack m keys := by
  refine History.foldl_iff_since (fun d => d = m.opposite) ?_ (fun keys key => ?_) keys
  · revert m
    decide
  · rw [turn_eq_opposite_iff hm (foldl_turn_mem hm keys) key, across_foldl_turn_iff hm]

end Keys

/-! ### Games -/

/-- What happens to the game: a key is handled, or `snake_update` is called, with two values of
`rand`. -/
inductive SnakeEvent
  | key (key : UInt8)
  | update (rand : ℕ × ℕ)
deriving DecidableEq, Repr

def snakeEvent (b : Board) (g : SnakeGame) : SnakeEvent → Except ℕ SnakeGame
  | .key key => .ok (g.readKey (some key))
  | .update rand => snakeUpdate b g rand

/-- The game after these events. -/
def snakeEvents (b : Board) (body : ℕ → Point) (rand : ℕ × ℕ) (events : List SnakeEvent) :
    Except ℕ SnakeGame :=
  events.foldlM (snakeEvent b) (snakeInit b body rand)

section Events

variable {b : Board} {g g' : SnakeGame}

/-- All that a call of `snake_update` does. -/
theorem snakeUpdate_cases {rand : ℕ × ℕ} (h : snakeUpdate b g rand = .ok g') :
    (g.gameOver = true ∧ g' = g) ∨ g' = { g with gameOver := true } ∨ g' = g.moved b rand := by
  by_cases hover : g.gameOver = true
  · rw [snakeUpdate, if_pos hover] at h
    exact .inl ⟨hover, (Except.ok.inj h).symm⟩
  have hplaying := eq_false_of_ne_true hover
  cases hcollision : snakeCollision b g.snake g.snake.newHead with
  | error i =>
      rw [snakeUpdate_eq rand hplaying, hcollision] at h
      cases h
  | ok collided =>
      cases collided with
      | true =>
          rw [snakeUpdate_collides rand hplaying hcollision] at h
          exact .inr (.inl (Except.ok.inj h).symm)
      | false =>
          obtain hlt | hge := Nat.lt_or_ge g.snake.length snakeMaxLength
          · rw [snakeUpdate_moves rand hplaying hcollision hlt] at h
            exact .inr (.inr (Except.ok.inj h).symm)
          · exact absurd h (snakeUpdate_overruns rand hplaying hcollision hge g')

/-- Keys turn the snake. -/
theorem snakeEvents_keys (g : SnakeGame) (keys : List UInt8) :
    (keys.map SnakeEvent.key).foldlM (snakeEvent b) g =
      .ok { g with snake := { g.snake with direction := keys.foldl turn g.snake.direction } } := by
  induction keys generalizing g with
  | nil => rfl
  | cons key keys ih =>
      have hkey : snakeEvent b g (.key key) =
          .ok { g with snake := { g.snake with direction := turn g.snake.direction key } } := by
        rw [snakeEvent, SnakeGame.readKey, Option.elim_some, snakeHandleInput_eq]
      rw [List.map_cons, List.foldlM_cons, hkey]
      exact ih _

/-- The snake has a head, and moves. -/
def SnakeGame.Moving (g : SnakeGame) : Prop :=
  1 ≤ g.snake.length ∧ g.snake.direction ∈ directions

theorem SnakeGame.moved_snake (g : SnakeGame) (rand : ℕ × ℕ) :
    (g.moved b rand).snake.direction = g.snake.direction ∧
      (g.moved b rand).gameOver = g.gameOver ∧
      g.snake.length ≤ (g.moved b rand).snake.length ∧
      (g.moved b rand).snake.body =
        Function.update (shifted g.snake.body g.snake.length) 0 g.snake.newHead := by
  rw [SnakeGame.moved]
  dsimp only
  split_ifs
  · exact ⟨rfl, rfl, Nat.le_succ _, rfl⟩
  · exact ⟨rfl, rfl, Nat.le_refl _, rfl⟩

theorem SnakeGame.Moving.event (h : g.Moving) {event : SnakeEvent}
    (hevent : snakeEvent b g event = .ok g') : g'.Moving := by
  obtain ⟨hlength, hdirection⟩ := h
  cases event with
  | key key =>
      obtain rfl := Except.ok.inj hevent
      rw [SnakeGame.Moving, SnakeGame.readKey, Option.elim_some, snakeHandleInput_eq]
      exact ⟨hlength, turn_mem hdirection hdirection key⟩
  | update rand =>
      obtain ⟨-, rfl⟩ | rfl | rfl := snakeUpdate_cases hevent
      · exact ⟨hlength, hdirection⟩
      · exact ⟨hlength, hdirection⟩
      · obtain ⟨hturn, -, hgrown, -⟩ := g.moved_snake (b := b) rand
        exact ⟨hlength.trans hgrown, hturn ▸ hdirection⟩

theorem moving_snakeEvents {body : ℕ → Point} {rand : ℕ × ℕ} {events : List SnakeEvent}
    (h : snakeEvents b body rand events = .ok g) : g.Moving := by
  exact (Outcome.Steps.of_foldlM h).invariant ⟨Nat.le_refl 1, by simp [snakeInit, directions]⟩
    fun _ _ _ hmoving _ hevent => hmoving.event hevent

/-- After a move the head is one step ahead of the second cell, in the direction of the snake. -/
theorem SnakeGame.Moving.update (h : g.Moving) {rand : ℕ × ℕ}
    (hupdate : snakeUpdate b g rand = .ok g') (hplaying : g'.gameOver = false) :
    g'.snake.body 0 = ⟨(g'.snake.body 1).x + g'.snake.direction.x,
      (g'.snake.body 1).y + g'.snake.direction.y⟩ := by
  obtain ⟨hover, rfl⟩ | rfl | rfl := snakeUpdate_cases hupdate
  · rw [hover] at hplaying
    cases hplaying
  · cases hplaying
  · obtain ⟨hturn, -, -, hbody⟩ := g.moved_snake (b := b) rand
    have hlength := h.1
    rw [hturn, hbody, Function.update_self, Function.update_of_ne Nat.one_ne_zero, shifted,
      if_pos ⟨Nat.le_refl 1, hlength⟩]
    rfl

end Events

/-! ### The loop -/

/-- The game, and the counters of the loop. -/
def SnakeGame.withCounters (g : SnakeGame) (counter : ℕ) (threshold : ℤ) (length : ℕ) :
    SnakeGame :=
  { g with updateCounter := counter, updateThreshold := threshold, lengthThreshold := length }

section Loop

variable {b : Board} {g g' : SnakeGame} {counter length : ℕ} {threshold : ℤ}

theorem snakeUpdate_withCounters (rand : ℕ × ℕ) :
    snakeUpdate b (g.withCounters counter threshold length) rand =
      (snakeUpdate b g rand).map fun g => g.withCounters counter threshold length := by
  by_cases hover : g.gameOver = true
  · have hstays (g : SnakeGame) (hg : g.gameOver = true) : snakeUpdate b g rand = .ok g := if_pos hg
    rw [hstays g hover]
    exact hstays _ hover
  have hplaying := eq_false_of_ne_true hover
  rw [snakeUpdate_eq rand hplaying,
    snakeUpdate_eq (g := g.withCounters counter threshold length) rand hplaying]
  have hsnake : (g.withCounters counter threshold length).snake = g.snake := rfl
  rw [hsnake]
  cases snakeCollision b g.snake g.snake.newHead with
  | error i => rfl
  | ok collided =>
      cases collided with
      | true => rfl
      | false =>
          dsimp only [bind, Except.bind]
          rw [if_neg Bool.false_ne_true, if_neg Bool.false_ne_true]
          cases moveBody g.snake.length g.snake with
          | error i => rfl
          | ok moved =>
              dsimp only
              cases moved.write 0 g.snake.newHead with
              | error i => rfl
              | ok moved =>
                  have hfood : (g.withCounters counter threshold length).food = g.food := rfl
                  dsimp only
                  rw [hfood]
                  split_ifs
                  · rfl
                  · rfl

theorem readKey_withCounters (key : Option UInt8) :
    (g.withCounters counter threshold length).readKey key =
      (g.readKey key).withCounters counter threshold length := by
  cases key with
  | none => rfl
  | some key => rfl

theorem exists_tick_eq (g : SnakeGame) :
    ∃ counter threshold length, g.tick = g.withCounters counter threshold length := by
  rw [SnakeGame.tick]
  split_ifs
  · exact ⟨_, _, _, rfl⟩
  · exact ⟨_, _, _, rfl⟩

/-- An iteration handles a key, if any, and may call `snake_update`. -/
theorem snakeStep_events {input : SnakeInput}
    (h : snakeStep b (g.withCounters counter threshold length) input = .ok g') :
    ∃ (events : List SnakeEvent) (g₁ : SnakeGame) (counter' : ℕ) (threshold' : ℤ) (length' : ℕ),
      events.foldlM (snakeEvent b) g = .ok g₁ ∧
        g' = g₁.withCounters counter' threshold' length' := by
  by_cases hover : g.gameOver = true
  · have hstays : snakeStep b (g.withCounters counter threshold length) input =
        .ok (g.withCounters counter threshold length) := if_pos hover
    obtain rfl := Except.ok.inj (hstays.symm.trans h)
    exact ⟨[], g, counter, threshold, length, rfl, rfl⟩
  have hevents : ∃ keys : List SnakeEvent,
      keys.foldlM (snakeEvent b) g = .ok (g.readKey input.key) := by
    cases input.key with
    | none => exact ⟨[], rfl⟩
    | some key => exact ⟨[.key key], rfl⟩
  obtain ⟨keys, hkeys⟩ := hevents
  by_cases hdue : ((g.withCounters counter threshold length).readKey input.key).Due
  · have hplaying : (g.withCounters counter threshold length).gameOver = false :=
      eq_false_of_ne_true hover
    rw [SnakeGame.snakeStep_due hplaying hdue, readKey_withCounters, snakeUpdate_withCounters] at h
    obtain ⟨updated, hupdate, htock⟩ := bind_eq_ok.mp h
    obtain ⟨g₁, hg₁, rfl⟩ := Outcome.map_eq_ok.mp hupdate
    obtain rfl := Except.ok.inj htock
    obtain ⟨counter', threshold', length', heq⟩ :=
      exists_tick_eq { g₁.withCounters counter threshold length with updateCounter := 0 }
    refine ⟨keys ++ [.update input.rand], g₁, counter', threshold', length', ?_, heq⟩
    rw [Outcome.foldlM_append_of_ok hkeys, List.foldlM_cons]
    exact bind_eq_ok.mpr ⟨g₁, hg₁, rfl⟩
  · have hwaits : snakeStep b (g.withCounters counter threshold length) input =
        .ok ((g.withCounters counter threshold length).readKey input.key).tick :=
      (if_neg hover).trans (if_neg hdue)
    obtain rfl := Except.ok.inj (hwaits.symm.trans h)
    rw [readKey_withCounters]
    obtain ⟨counter', threshold', length', heq⟩ :=
      exists_tick_eq ((g.readKey input.key).withCounters counter threshold length)
    exact ⟨keys, g.readKey input.key, counter', threshold', length', hkeys, heq⟩

end Loop

/-- **The loop** goes through events: each of its games is one of theirs, with its counters. -/
theorem snakeRun_events {b : Board} {body : ℕ → Point} {rand : ℕ × ℕ} {inputs : List SnakeInput}
    {g : SnakeGame} (h : snakeRun b body rand inputs = .ok g) :
    ∃ events g₁ counter threshold length, snakeEvents b body rand events = .ok g₁ ∧
      g = g₁.withCounters counter threshold length := by
  induction inputs using List.reverseRecOn generalizing g with
  | nil =>
      obtain rfl := Except.ok.inj h
      exact ⟨[], _, 0, 25, 5, rfl, rfl⟩
  | append_singleton inputs input ih =>
      rw [snakeRun, List.foldlM_append] at h
      obtain ⟨g₀, hinputs, hlast⟩ := bind_eq_ok.mp h
      rw [List.foldlM_cons] at hlast
      obtain ⟨_, hstep, hnil⟩ := bind_eq_ok.mp hlast
      obtain rfl := Except.ok.inj hnil
      obtain ⟨events, g₁, counter, threshold, length, hevents, rfl⟩ := ih hinputs
      obtain ⟨more, g₂, counter', threshold', length', hmore, rfl⟩ := snakeStep_events hstep
      exact ⟨events ++ more, g₂, counter', threshold', length',
        (Outcome.foldlM_append_of_ok hevents more).trans hmore, rfl⟩

/-! ### Turning back -/

/-- Events end with an update and the keys behind it, or there are keys alone. -/
theorem exists_last_update (events : List SnakeEvent) :
    (∃ keys : List UInt8, events = keys.map SnakeEvent.key) ∨
      ∃ first rand, ∃ keys : List UInt8,
        events = first ++ [.update rand] ++ keys.map SnakeEvent.key := by
  induction events using List.reverseRecOn with
  | nil => exact .inl ⟨[], rfl⟩
  | append_singleton events event ih =>
      cases event with
      | update rand => exact .inr ⟨events, rand, [], (List.append_nil _).symm⟩
      | key key =>
          obtain ⟨keys, rfl⟩ | ⟨first, rand, keys, rfl⟩ := ih
          · exact .inl ⟨keys ++ [key], by simp⟩
          · exact .inr ⟨first, rand, keys ++ [key], by simp⟩

section Claim

variable (b : Board) (body : ℕ → Point) (rand : ℕ × ℕ) (events : List SnakeEvent)

/-- At any time of the game, if the snake has a second cell, its head would not move there. -/
def NeverTurnsBack : Prop :=
  ∀ first, first <+: events → ∀ g, snakeEvents b body rand first = .ok g →
    g.gameOver = false → 2 ≤ g.snake.length → g.snake.newHead ≠ g.snake.body 1

/-- At no time do the keys since the last update turn back the snake from the direction in which it
has moved, if it has a second cell. -/
def KeysNeverTurnBack : Prop :=
  ∀ first rand' (keys : List UInt8),
    first ++ [.update rand'] ++ keys.map SnakeEvent.key <+: events →
    ∀ g, snakeEvents b body rand (first ++ [.update rand']) = .ok g →
      g.gameOver = false → 2 ≤ g.snake.length → ¬ TurnsBack g.snake.direction keys

variable {b body rand}

/-- The head meets the second cell if the keys since the update turn back the snake. -/
theorem newHead_eq_iff {first : List SnakeEvent} {rand' : ℕ × ℕ} {g : SnakeGame}
    (hg : snakeEvents b body rand (first ++ [.update rand']) = .ok g)
    (hplaying : g.gameOver = false) (keys : List UInt8) :
    { g.snake with direction := keys.foldl turn g.snake.direction }.newHead = g.snake.body 1 ↔
      TurnsBack g.snake.direction keys := by
  rw [snakeEvents, List.foldlM_append] at hg
  obtain ⟨g₀, hfirst, hlast⟩ := bind_eq_ok.mp hg
  rw [List.foldlM_cons] at hlast
  obtain ⟨_, hupdate, hnil⟩ := bind_eq_ok.mp hlast
  obtain rfl := Except.ok.inj hnil
  have hmoving := moving_snakeEvents hfirst
  have hhead := hmoving.update hupdate hplaying
  rw [← foldl_turn_eq_opposite_iff (hmoving.event hupdate).2, Snake.newHead]
  dsimp only
  rw [hhead, Point.ext_iff, Point.ext_iff, Point.opposite]
  dsimp only
  constructor
  · rintro ⟨hx, hy⟩
    exact ⟨by omega, by omega⟩
  · rintro ⟨hx, hy⟩
    exact ⟨by omega, by omega⟩

/-- **The head never meets the second cell** exactly if no keys turn back the snake. -/
theorem neverTurnsBack_iff (b : Board) (body : ℕ → Point) (rand : ℕ × ℕ)
    (events : List SnakeEvent) :
    NeverTurnsBack b body rand events ↔ KeysNeverTurnBack b body rand events := by
  constructor
  · intro hnever first rand' keys hprefix g hg hplaying hlength hback
    refine hnever _ hprefix { g with snake := { g.snake with
      direction := keys.foldl turn g.snake.direction } } ?_ hplaying hlength
      ((newHead_eq_iff hg hplaying keys).mpr hback)
    rw [snakeEvents, Outcome.foldlM_append_of_ok hg, snakeEvents_keys]
  · intro hkeys first hprefix g hg hplaying hlength hback
    obtain ⟨keys, rfl⟩ | ⟨front, rand', keys, rfl⟩ := exists_last_update first
    · rw [snakeEvents, snakeEvents_keys] at hg
      obtain rfl := Except.ok.inj hg
      have hone : 2 ≤ 1 := hlength
      omega
    · rw [snakeEvents, List.foldlM_append] at hg
      obtain ⟨g₀, hfront, hg⟩ := bind_eq_ok.mp hg
      rw [snakeEvents_keys] at hg
      obtain rfl := Except.ok.inj hg
      exact hkeys front rand' keys hprefix g₀ hfront hplaying hlength
        ((newHead_eq_iff hfront hplaying keys).mp hback)

end Claim

/-- With two cells, moving to the right, up and then left. -/
theorem neverTurnsBack_violated :
    ¬ ∀ b body rand events, NeverTurnsBack b body rand events := by
  intro hall
  obtain ⟨g, hg, hback⟩ := Outcome.exists_eq_ok_of_any
    (x := snakeEvents largeBoard (fun _ => ⟨0, 0⟩) (119, 65)
      [.update (0, 0), .key 0x77, .key 0x61])
    (p := fun g => !g.gameOver && decide (2 ≤ g.snake.length) &&
      decide (g.snake.newHead = g.snake.body 1)) (by decide)
  simp only [Bool.and_eq_true, Bool.not_eq_true', decide_eq_true_eq] at hback
  obtain ⟨⟨hplaying, hlength⟩, hmeets⟩ := hback
  exact hall largeBoard (fun _ => ⟨0, 0⟩) (119, 65) _ _ (List.prefix_refl _) g hg hplaying hlength
    hmeets

/-- In the loop: the snake eats in iteration 26, both keys come at once, and in iteration 51 the
head is to move to the second cell. -/
example : (snakeRun largeBoard (fun _ => ⟨0, 0⟩) (119, 65)
    (List.replicate 26 ⟨none, (0, 0)⟩ ++ [⟨some 0x77, (0, 0)⟩, ⟨some 0x61, (0, 0)⟩] ++
      List.replicate 22 ⟨none, (0, 0)⟩)).toOption.any
      (fun g => decide g.Due && decide (g.snake.newHead = g.snake.body 1)) = true := by
  decide +kernel

end HalOS
