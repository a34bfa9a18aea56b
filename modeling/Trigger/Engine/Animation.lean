import Trigger.Engine.Flight
import Trigger.Foundation.Binary32

/-! The frame of the animation.

It advances on every sixth value of a counter that all players share, in the row of the
state that the tick gives the player. The jump resets it and the fall from an edge does
not, so a fall that begins between two such values keeps the frame of the longer row.
-/

set_option autoImplicit false

namespace Trigger.Engine
open Foundation Config

def maxFrames : Int := 10
def countJumpFrame : Int := 6

section
variable {K : Type}

/-- The row of the texture, by the number of the state. -/
def PlayerState.row : PlayerState → Int
  | .idle => 1
  | .go => 2
  | .run => 3
  | .jump => 4

/-- The part of the texture that `draw_player` selects. -/
def Player.sourceRec (player : Player K) : Rectangle Int :=
  ⟨128 * player.currentFrame, player.state.row * 128, player.flip * 128, 128⟩

/-- The frame is one of its row, and what is drawn of the jump ends within it. -/
structure FrameExists (player : Player K) : Prop where
  low : 0 ≤ player.currentFrame
  high : player.currentFrame < maxFrames
  jump : player.state = .jump → player.currentFrame < countJumpFrame
  drawn : player.state = .jump → player.sourceRec.x + player.sourceRec.height ≤ countJumpFrame * 128

structure Animation (K : Type) where
  player : Player K
  frame : Int

/-- What happens to a player: its ticks, on any map, the doors it is pushed by, and the
ticks of others, which leave the counter at some value. -/
inductive PlayerEvent (K : Type) where
  | tick (map : MapLayout) (keys : MoveKeys)
  | push (door : Door K)
  | others (frame : Int)

variable [Scalar K]

def animationStep (animation : Animation K) : PlayerEvent K → Except Fault (Animation K)
  | .tick map keys =>
    let tick := updatePlayer map keys animation.frame animation.player
    .ok ⟨tick.player, tick.frame⟩
  | .push door => .ok { animation with player := (updateDoor door animation.player).2 }
  | .others frame => .ok { animation with frame }

/-- The frame exists wherever the events lead. -/
def FramesExist (start : Animation K) (events : List (PlayerEvent K)) : Prop :=
  ∀ front back animation, events = front ++ back → run animationStep start front = .ok animation →
    FrameExists animation.player

end

section
variable {K : Type} [Scalar K]

/-- What a tick needs of the numbers: a player at rest falls. -/
class Gravity (K : Type) [Scalar K] : Prop where
  irrefl : ¬ (ofInt 0 : K) < ofInt 0
  slow : fminf (ofInt 0 : K) (ofInt 2) < ofInt 2
  falls : (ofInt 0 : K) < ofInt 0 + Scalar.ofRat (1 / 5)

instance : Gravity Rat := ⟨by decide, by decide, by decide +kernel⟩

instance : Gravity Binary32 := ⟨by decide +kernel, by decide +kernel, by decide +kernel⟩

def MoveKeys.walkSpeed (keys : MoveKeys) : K :=
  let speed : K := if keys.leftShift then ofInt 3 else ofInt 1
  let right : K := if keys.d then ofInt 0 + speed else ofInt 0
  if keys.a then right - speed else right

def Player.stepX (player : Player K) (map : MapLayout) (keys : MoveKeys) : K :=
  let speed : K := keys.walkSpeed
  let target := player.pos.x + speed
  (firstSolid map (scannedCells ⟨target, player.pos.y⟩)).elim target fun cell =>
    if ofInt 0 < speed then ofInt (cell.2 * mapTileSize - 32)
    else if speed < ofInt 0 then ofInt (cell.2 * mapTileSize + 32)
    else target

/-- Under the place where the step ends is a solid cell; a resting player sinks by the gravity of
a tick and a pixel. -/
def Player.FindsFloor (player : Player K) (map : MapLayout) (keys : MoveKeys) : Prop :=
  (firstSolid map (scannedCells ⟨player.stepX map keys,
    player.pos.y + (ofInt 0 + Scalar.ofRat (1 / 5) + ofInt 1)⟩)).isSome

/-- A player in one of the frames that the jump has not leaves the ground only by a jump, or
when the counter lets the tick choose the frame again. -/
def KeepsRow (animation : Animation K) : PlayerEvent K → Prop
  | .tick map keys => countJumpFrame ≤ animation.player.currentFrame → keys.space = false →
      ¬ (animation.frame + 1).tmod 6 = 0 → animation.player.FindsFloor map keys
  | .push _ => True
  | .others _ => True

structure Rested (player : Player K) : Prop where
  still : player.velocity.x = ofInt 0
  grounded : player.onGround = true → player.velocity.y = ofInt 0

section
variable {map : MapLayout} {keys : MoveKeys} {player : Player K}

theorem leap_kept (player : Player K) (keys : MoveKeys) : (player.leap keys).velocity.x = player.velocity.x ∧
    (player.leap keys).pos = player.pos := by
  unfold Player.leap
  split <;> exact ⟨rfl, rfl⟩

theorem start_place : (player.start keys).pos = player.pos :=
  (leap_kept (player.walk keys) keys).2.trans (walk_upright player keys).2.2

theorem start_across (rested : Rested player) : (player.start keys).velocity.x = keys.walkSpeed := by
  have kept : (player.start keys).velocity.x = (player.walk keys).velocity.x := (leap_kept (player.walk keys) keys).1
  obtain ⟨d, a, leftShift, space⟩ := keys
  rw [kept]
  cases d <;> cases a <;> simp [Player.walk, MoveKeys.walkSpeed, rested.still]

theorem checkedX_place [Gravity K] (rested : Rested player) :
    (player.checkedX map keys).pos = ⟨player.stepX map keys, player.pos.y⟩ := by
  have across : (player.start keys).moveX.velocity.x = keys.walkSpeed := start_across rested
  have target : (player.start keys).moveX.pos = ⟨player.pos.x + keys.walkSpeed, player.pos.y⟩ := by
    rw [Player.moveX, start_place, start_across rested]
  rw [Player.checkedX, checkCollisionPl, collideCells_fst Gravity.irrefl, target, Player.stepX]
  cases firstSolid map (scannedCells (⟨player.pos.x + keys.walkSpeed, player.pos.y⟩ : Vector2 K)) with
  | none => exact target
  | some cell =>
    simp only [Option.elim_some]
    rw [hitCell_horizontal, Player.hitRight, across]
    by_cases right : ofInt 0 < (keys.walkSpeed : K)
    · rw [if_pos ⟨right, rfl⟩, if_pos right, Player.hitLeft, if_neg fun left => Gravity.irrefl left.1, target]
    · rw [if_neg fun both => right both.1, if_neg right, Player.hitLeft, across]
      by_cases left : (keys.walkSpeed : K) < ofInt 0
      · rw [if_pos ⟨left, rfl⟩, if_pos left, target]
      · rw [if_neg fun both => left both.1, if_neg left, target]

theorem fall_of_rest [Gravity K] (rest : player.velocity.y = ofInt 0) :
    player.fall.velocity.y = ofInt 0 + Scalar.ofRat (1 / 5) ∧ player.fall.onGround = false := by
  rw [Player.fall, rest, if_pos Gravity.slow]
  exact ⟨rfl, if_pos Gravity.falls⟩

/-- Each tick takes the player off the ground before it looks for it. -/
theorem start_airborne [Gravity K] (rested : Rested player) : (player.start keys).onGround = false := by
  obtain ⟨velocity, ground, -⟩ := walk_upright player keys
  have stays (self : Player K) (airborne : self.onGround = false) : self.fall.onGround = false := by
    change (if _ then false else self.onGround) = false
    rw [airborne, ite_self]
  rw [Player.start, Player.leap]
  split
  · exact stays _ rfl
  · cases down : player.onGround with
    | false => exact stays _ (ground.trans down)
    | true => exact (fall_of_rest (velocity.trans (rested.grounded down))).2

theorem start_falling [Gravity K] (rested : Rested player) (ground : player.onGround = true) (stays : keys.space = false) :
    (player.start keys).velocity.y = ofInt 0 + Scalar.ofRat (1 / 5) := by
  have unmoved : (player.walk keys).leap keys = player.walk keys := if_neg fun jumps => by simp [stays] at jumps
  rw [Player.start, unmoved]
  exact (fall_of_rest ((walk_upright player keys).1.trans (rested.grounded ground))).1

theorem checkedX_airborne [Gravity K] (rested : Rested player) : (player.checkedX map keys).moveY.onGround = false :=
  (checkedX_upright map keys player).2.trans (start_airborne rested)

theorem onGround_iff_findsFloor [Gravity K] (rested : Rested player) (ground : player.onGround = true)
    (stays : keys.space = false) : (player.checkedY map keys).onGround = true ↔ player.FindsFloor map keys := by
  have falling : (player.checkedX map keys).velocity.y = ofInt 0 + Scalar.ofRat (1 / 5) :=
    (checkedX_upright map keys player).1.trans (start_falling rested ground stays)
  have target : (player.checkedX map keys).moveY.pos = ⟨player.stepX map keys,
      player.pos.y + (ofInt 0 + Scalar.ofRat (1 / 5) + ofInt 1)⟩ := by
    rw [Player.moveY, checkedX_place rested, falling]
  rw [Player.checkedY, checkCollisionPl, collideCells_fst Gravity.irrefl, target, Player.FindsFloor]
  cases firstSolid map (scannedCells (⟨player.stepX map keys,
      player.pos.y + (ofInt 0 + Scalar.ofRat (1 / 5) + ofInt 1)⟩ : Vector2 K)) with
  | none => simp [checkedX_airborne rested]
  | some cell =>
    have down : ofInt 0 < (player.checkedX map keys).moveY.velocity.y := by
      rw [moveY_velocity, falling]
      exact Gravity.falls
    rw [Option.elim_some, hitCell_vertical, Player.hitBottom, if_pos ⟨down, rfl⟩, Player.hitTop,
      if_neg fun up => Gravity.irrefl up.1]
    simp

theorem vertical_grounded [Gravity K] (airborne : player.onGround = false) (i j : Int)
    (ground : (player.hitCell .vertical i j).onGround = true) : (player.hitCell .vertical i j).velocity.y = ofInt 0 := by
  rw [hitCell_vertical, Player.hitBottom] at ground ⊢
  by_cases down : ofInt 0 < player.velocity.y
  · rw [if_pos ⟨down, rfl⟩, Player.hitTop, if_neg fun up => Gravity.irrefl up.1]
  · rw [if_neg fun both => down both.1, Player.hitTop] at ground
    split at ground
    · cases ground
    · cases ground.symm.trans airborne

theorem updatePlayer_rested [Gravity K] (rested : Rested player) (map : MapLayout) (keys : MoveKeys) (frame : Int) :
    Rested (updatePlayer map keys frame player).player := by
  refine ⟨rfl, fun ground => ?_⟩
  obtain ⟨velocity, same⟩ := updatePlayer_upright map keys frame player
  rw [same] at ground
  rw [velocity]
  have airborne : (player.checkedX map keys).moveY.onGround = false := checkedX_airborne rested
  rw [Player.checkedY, checkCollisionPl, collideCells_fst Gravity.irrefl] at ground ⊢
  revert ground
  cases firstSolid map (scannedCells (player.checkedX map keys).moveY.pos) with
  | none => exact fun ground => by cases ground.symm.trans airborne
  | some cell => exact vertical_grounded airborne cell.1 cell.2

end

end

section
variable {K : Type}

theorem frameExists_iff {player : Player K} : FrameExists player ↔
    (0 ≤ player.currentFrame ∧ player.currentFrame < maxFrames) ∧
      (player.state = .jump → player.currentFrame < countJumpFrame) := by
  constructor
  · rintro ⟨low, high, jump, -⟩
    exact ⟨⟨low, high⟩, jump⟩
  · rintro ⟨⟨low, high⟩, jump⟩
    refine ⟨low, high, jump, fun jumps => ?_⟩
    have below := jump jumps
    simp only [Player.sourceRec, countJumpFrame] at below ⊢
    omega

def Player.nextFrame (player : Player K) (frame : Int) : Int :=
  if (frame + 1).tmod 6 = 0 then
    if player.state = .jump then
      if (player.currentFrame + 1).tmod 6 = 0 then player.currentFrame else (player.currentFrame + 1).tmod 6
    else (player.currentFrame + 1).tmod 10
  else player.currentFrame

theorem animate_fst (player : Player K) (frame : Int) :
    (player.animate frame).1 = { player with currentFrame := player.nextFrame frame } := by
  unfold Player.animate Player.nextFrame
  split
  · split
    · dsimp only
      split <;> rfl
    · rfl
  · rfl

theorem nextFrame_bounds {player : Player K} (low : 0 ≤ player.currentFrame)
    (high : player.currentFrame < maxFrames) (frame : Int) :
    0 ≤ player.nextFrame frame ∧ player.nextFrame frame < maxFrames := by
  have ahead (row : Int) : (player.currentFrame + 1).tmod row = (player.currentFrame + 1) % row :=
    Int.tmod_eq_emod_of_nonneg (by omega)
  simp only [Player.nextFrame, maxFrames, ahead] at high ⊢
  split
  · split
    · split <;> omega
    · omega
  · exact ⟨low, high⟩

theorem nextFrame_jump_iff {player : Player K} (low : 0 ≤ player.currentFrame)
    (high : player.currentFrame < maxFrames) (jumps : player.state = .jump) (frame : Int) :
    player.nextFrame frame < countJumpFrame ↔ player.currentFrame < countJumpFrame ∨ (frame + 1).tmod 6 = 0 := by
  have ahead : (player.currentFrame + 1).tmod 6 = (player.currentFrame + 1) % 6 :=
    Int.tmod_eq_emod_of_nonneg (by omega)
  simp only [Player.nextFrame, maxFrames, countJumpFrame, jumps, if_true, ahead] at high ⊢
  split
  · split <;> omega
  · omega

variable [Scalar K] (player : Player K) (keys : MoveKeys)

theorem hitCell_currentFrame (axis : Axis) (i j : Int) : (player.hitCell axis i j).currentFrame = player.currentFrame := by
  unfold Player.hitCell Player.hitTop Player.hitBottom Player.hitLeft Player.hitRight
  split <;> split <;> split <;> split <;> rfl

theorem checkCollisionPl_currentFrame (map : MapLayout) (axis : Axis) :
    (checkCollisionPl map axis player).1.currentFrame = player.currentFrame :=
  collideCells_keeps (fun self => self.currentFrame = player.currentFrame)
    (fun self i j same => (hitCell_currentFrame self axis i j).trans same) map _ rfl

theorem start_currentFrame : (player.start keys).currentFrame =
    if keys.space = true ∧ player.onGround = true then 0 else player.currentFrame := by
  have walked : (player.walk keys).currentFrame = player.currentFrame ∧ (player.walk keys).onGround = player.onGround := by
    unfold Player.walk
    dsimp only
    split <;> split <;> exact ⟨rfl, rfl⟩
  change ((player.walk keys).leap keys).currentFrame = _
  rw [Player.leap, walked.2]
  split
  · rfl
  · exact walked.1

theorem moveX_currentFrame : player.moveX.currentFrame = player.currentFrame := rfl

theorem moveY_currentFrame : player.moveY.currentFrame = player.currentFrame := rfl

omit [Scalar K] in
theorem stand_currentFrame : (player.stand keys).currentFrame = player.currentFrame := rfl

theorem stood_currentFrame (map : MapLayout) :
    (((checkCollisionPl map .vertical (checkCollisionPl map .horizontal (player.start keys).moveX).1.moveY).1).stand
      keys).currentFrame = if keys.space = true ∧ player.onGround = true then 0 else player.currentFrame := by
  rw [stand_currentFrame, checkCollisionPl_currentFrame, moveY_currentFrame, checkCollisionPl_currentFrame,
    moveX_currentFrame, start_currentFrame]

omit [Scalar K] in
theorem stand_jump_iff : (player.stand keys).state = .jump ↔ player.onGround = false := by
  unfold Player.stand
  dsimp only
  split
  · rename_i airborne
    simp [airborne]
  · rename_i ground
    refine iff_of_false ?_ ground
    split
    · split <;> nofun
    · nofun

theorem updatePlayer_frameBounds (map : MapLayout) (frame : Int)
    (bounds : 0 ≤ player.currentFrame ∧ player.currentFrame < maxFrames) :
    0 ≤ (updatePlayer map keys frame player).player.currentFrame ∧
      (updatePlayer map keys frame player).player.currentFrame < maxFrames := by
  let stood := ((checkCollisionPl map .vertical (checkCollisionPl map .horizontal (player.start keys).moveX).1.moveY).1).stand keys
  have same : (updatePlayer map keys frame player).player.currentFrame = stood.nextFrame frame :=
    congrArg Player.currentFrame (animate_fst stood frame)
  have before : 0 ≤ stood.currentFrame ∧ stood.currentFrame < maxFrames := by
    rw [stood_currentFrame player keys map]
    split
    · exact ⟨le_refl _, by decide⟩
    · exact bounds
  rw [same]
  exact nextFrame_bounds before.1 before.2 frame

theorem updateDoor_frame (door : Door K) : (updateDoor door player).2.currentFrame = player.currentFrame ∧
    ((updateDoor door player).2.state = player.state ∧ (updateDoor door player).2.onGround = player.onGround ∨
      (updateDoor door player).2.state = .idle ∧ (updateDoor door player).2.onGround = true) := by
  have pushed (playerRect doorRect : Rectangle K) :
      (player.pushOut playerRect doorRect).currentFrame = player.currentFrame ∧
        ((player.pushOut playerRect doorRect).state = player.state ∧
            (player.pushOut playerRect doorRect).onGround = player.onGround ∨
          (player.pushOut playerRect doorRect).state = .idle ∧ (player.pushOut playerRect doorRect).onGround = true) := by
    unfold Player.pushOut
    dsimp only
    generalize (if playerRect.x + playerRect.width - doorRect.x < doorRect.x + doorRect.width - playerRect.x then _ else _) = minX
    generalize (if playerRect.y + playerRect.height - doorRect.y < doorRect.y + doorRect.height - playerRect.y then _ else _) = minY
    by_cases across : minX < minY
    · rw [if_pos across]
      split <;> exact ⟨rfl, .inl ⟨rfl, rfl⟩⟩
    · rw [if_neg across]
      split
      · exact ⟨rfl, .inr ⟨rfl, rfl⟩⟩
      · exact ⟨rfl, .inl ⟨rfl, rfl⟩⟩
  unfold updateDoor
  dsimp only
  split
  · exact pushed _ _
  · exact ⟨rfl, .inl ⟨rfl, rfl⟩⟩

end

/-- What holds behind every event while the frame exists: the frames that the jump has not
are those of a player at rest. -/
structure Animated {K : Type} [Scalar K] (animation : Animation K) : Prop where
  rested : Rested animation.player
  shown : FrameExists animation.player
  resting : countJumpFrame ≤ animation.player.currentFrame → animation.player.onGround = true

section
variable {K : Type} [Scalar K] {animation next : Animation K}

theorem updateDoor_rested {player : Player K} (rested : Rested player) (door : Door K) :
    Rested (updateDoor door player).2 := by
  have pushed (playerRect doorRect : Rectangle K) : Rested (player.pushOut playerRect doorRect) := by
    unfold Player.pushOut
    dsimp only
    generalize (if playerRect.x + playerRect.width - doorRect.x < doorRect.x + doorRect.width - playerRect.x then _ else _) = minX
    generalize (if playerRect.y + playerRect.height - doorRect.y < doorRect.y + doorRect.height - playerRect.y then _ else _) = minY
    by_cases across : minX < minY
    · rw [if_pos across]
      split <;> exact ⟨rested.still, rested.grounded⟩
    · rw [if_neg across]
      split <;> exact ⟨rested.still, fun _ => rfl⟩
  unfold updateDoor
  dsimp only
  split
  · exact pushed _ _
  · exact rested

variable [Gravity K]

theorem tick_frameExists_iff (animated : Animated animation) (map : MapLayout) (keys : MoveKeys) :
    FrameExists (updatePlayer map keys animation.frame animation.player).player ↔
      KeepsRow animation (.tick map keys) := by
  obtain ⟨player, frame⟩ := animation
  obtain ⟨rested, shown, resting⟩ := animated
  obtain ⟨bounds, -⟩ := frameExists_iff.mp shown
  dsimp only at rested bounds resting ⊢
  let stood := (player.checkedY map keys).stand keys
  have current : stood.currentFrame = if keys.space = true ∧ player.onGround = true then 0 else player.currentFrame :=
    stood_currentFrame player keys map
  have state : (updatePlayer map keys frame player).player.state = stood.state := by
    change (stood.animate frame).1.state = _
    rw [animate_fst]
  have same : (updatePlayer map keys frame player).player.currentFrame = stood.nextFrame frame :=
    congrArg Player.currentFrame (animate_fst stood frame)
  have before : 0 ≤ stood.currentFrame ∧ stood.currentFrame < maxFrames := by
    rw [current]
    split
    · exact ⟨le_refl _, by decide⟩
    · exact bounds
  rw [frameExists_iff, and_iff_right (updatePlayer_frameBounds player keys map frame bounds), state, same]
  -- A tick in the air shows a frame below six when the frame was below six, or when the counter chooses again.
  have drawn : (stood.state = .jump → stood.nextFrame frame < countJumpFrame) ↔
      (stood.state = .jump → stood.currentFrame < countJumpFrame ∨ (frame + 1).tmod 6 = 0) :=
    forall_congr' fun jumps => nextFrame_jump_iff before.1 before.2 jumps frame
  rw [drawn, stand_jump_iff, current]
  constructor
  · intro row late stays off
    have unjumped : ¬ (keys.space = true ∧ player.onGround = true) := fun jumps => by simp [stays] at jumps
    rw [if_neg unjumped] at row
    rw [← onGround_iff_findsFloor rested (resting late) stays]
    by_contra airborne
    rcases row (Bool.not_eq_true _ ▸ airborne) with few | turn
    · exact absurd late (not_le.mpr few)
    · exact off turn
  · intro keeps airborne
    by_cases jumps : keys.space = true ∧ player.onGround = true
    · rw [if_pos jumps]
      exact .inl (by decide)
    · rw [if_neg jumps]
      by_cases late : countJumpFrame ≤ player.currentFrame
      · have stays : keys.space = false := Bool.not_eq_true _ ▸ fun space => jumps ⟨space, resting late⟩
        by_contra neither
        obtain ⟨-, off⟩ := not_or.mp neither
        have ground := (onGround_iff_findsFloor rested (resting late) stays).mpr (keeps late stays off)
        cases ground.symm.trans airborne
      · exact .inl (not_le.mp late)

theorem tick_animated (animated : Animated animation) (map : MapLayout) (keys : MoveKeys)
    (shown : FrameExists (updatePlayer map keys animation.frame animation.player).player) :
    Animated ⟨(updatePlayer map keys animation.frame animation.player).player,
      (updatePlayer map keys animation.frame animation.player).frame⟩ := by
  obtain ⟨player, frame⟩ := animation
  refine ⟨updatePlayer_rested animated.rested map keys frame, shown, fun late => ?_⟩
  dsimp only at shown late ⊢
  let stood := (player.checkedY map keys).stand keys
  have state : (updatePlayer map keys frame player).player.state = stood.state := by
    change (stood.animate frame).1.state = _
    rw [animate_fst]
  rw [(updatePlayer_upright map keys frame player).2, ← Bool.not_eq_false]
  intro airborne
  exact absurd (shown.jump (state.trans ((stand_jump_iff _ keys).mpr airborne))) (not_lt.mpr late)

omit [Gravity K] in
theorem push_animated (animated : Animated animation) (door : Door K) :
    Animated { animation with player := (updateDoor door animation.player).2 } := by
  obtain ⟨rested, shown, resting⟩ := animated
  obtain ⟨same, outcome⟩ := updateDoor_frame animation.player door
  refine ⟨updateDoor_rested rested door, ?_, ?_⟩
  · rw [frameExists_iff, same]
    refine ⟨⟨shown.low, shown.high⟩, fun jumps => ?_⟩
    rcases outcome with ⟨state, -⟩ | ⟨state, -⟩
    · exact shown.jump (state ▸ jumps)
    · cases state.symm.trans jumps
  · rw [same]
    intro late
    rcases outcome with ⟨-, ground⟩ | ⟨-, ground⟩
    · exact ground.trans (resting late)
    · exact ground

/-- Behind an event the frame exists exactly where the event keeps to the condition. -/
theorem animationStep_iff (animated : Animated animation) (event : PlayerEvent K) :
    (∀ next, animationStep animation event = .ok next → FrameExists next.player) ↔ KeepsRow animation event := by
  cases event with
  | tick map keys =>
    rw [← tick_frameExists_iff animated map keys]
    refine ⟨fun each => each _ rfl, fun shown next taken => ?_⟩
    cases taken
    exact shown
  | push door =>
    refine iff_of_true (fun next taken => ?_) trivial
    cases taken
    exact (push_animated animated door).shown
  | others frame =>
    refine iff_of_true (fun next taken => ?_) trivial
    cases taken
    exact animated.shown

theorem animationStep_animated (animated : Animated animation) {event : PlayerEvent K}
    (keeps : KeepsRow animation event) (taken : animationStep animation event = .ok next) : Animated next := by
  have shown := (animationStep_iff animated event).mpr keeps next taken
  cases event with
  | tick map keys =>
    cases taken
    exact tick_animated animated map keys shown
  | push door =>
    cases taken
    exact push_animated animated door
  | others frame =>
    cases taken
    exact ⟨animated.rested, shown, animated.resting⟩

omit [Gravity K] in
theorem createPlayer_animated (pos : Vector2 K) (id frame : Int) : Animated ⟨createPlayer pos id, frame⟩ where
  rested := ⟨rfl, fun _ => rfl⟩
  shown := frameExists_iff.mpr ⟨⟨le_refl _, show 0 < maxFrames by decide⟩, nofun⟩
  resting := fun late => absurd late (show ¬ countJumpFrame ≤ 0 by decide)

end

/-- The frame exists along a run exactly where every event keeps to the condition. -/
theorem framesExist_iff (pos : Vector2 Binary32) (id frame : Int) (events : List (PlayerEvent Binary32)) :
    FramesExist ⟨createPlayer pos id, frame⟩ events ↔
      Along animationStep KeepsRow ⟨createPlayer pos id, frame⟩ events := by
  have fresh := createPlayer_animated pos id frame
  rw [← along_congr (fun animation event animated => animationStep_iff animated event)
    (fun animation event next animated shown taken => animationStep_animated animated
      ((animationStep_iff animated event).mp shown) taken) fresh events]
  exact forall_reached_iff fresh.shown

def ledge : MapLayout := ⟨3, [[0, 0, 0], [0, 0, 0], [2, 0, 0]], by decide⟩

def runsOff : List (PlayerEvent Binary32) :=
  List.replicate 26 (.tick ledge ⟨false, false, false, false⟩) ++ List.replicate 11 (.tick ledge ⟨true, false, true, false⟩)

/-- It falls in the seventh frame, and the row of the jump has six. -/
theorem runsOff_not_framesExist : ¬ FramesExist ⟨createPlayer vector2Zero 1, 0⟩ runsOff := by
  intro exist
  have falls : succeedsWith (fun animation : Animation Binary32 =>
      animation.player.state = .jump ∧ animation.player.currentFrame = 6)
      (run animationStep ⟨createPlayer vector2Zero 1, 0⟩ runsOff) = true := by
    decide +kernel
  obtain ⟨animation, reached, jumps, late⟩ := exists_ok_of_succeedsWith falls
  have early := (exist runsOff [] animation (List.append_nil _).symm reached).jump jumps
  rw [late] at early
  exact absurd early (by decide)

section
variable {K : Type}

def World.animationAt (world : World K) (index : Nat) : Option (Animation K) :=
  match world.manager.entities[index]? with
  | some ⟨.player self, _⟩ => some ⟨self, world.frame⟩
  | _ => none

theorem animationAt_eq_some_iff {world : World K} {index : Nat} {animation : Animation K} :
    world.animationAt index = some animation ↔ ∃ active,
      world.manager.entities[index]? = some ⟨.player animation.player, active⟩ ∧ animation.frame = world.frame := by
  unfold World.animationAt
  constructor
  · intro shows
    split at shows
    · rename_i self active found
      cases shows
      exact ⟨active, found, rfl⟩
    · cases shows
  · rintro ⟨active, found, same⟩
    obtain ⟨player, frame⟩ := animation
    cases same
    rw [found]

variable [Scalar K] {start world next : World K} {index : Nat} {last : Animation K}

/-- The player was there before, and events lead from what it showed to what it shows. -/
def LeadsTo (before : World K) (index : Nat) (last : Animation K) : Prop :=
  ∃ first events, before.animationAt index = some first ∧ run animationStep first events = .ok last

theorem playerTurn_leadsTo {keys : MoveKeys} {turn : Nat} {self : Player K}
    (found : world.manager.entities[turn]? = some ⟨.player self, true⟩)
    (shows : World.animationAt { world with
      manager := world.manager.setData turn (.player (updatePlayer world.map keys world.frame self).player)
      frame := (updatePlayer world.map keys world.frame self).frame
      ended := world.ended || (updatePlayer world.map keys world.frame self).ended } index = some last) :
    LeadsTo world index last := by
  obtain ⟨player, frame⟩ := last
  obtain ⟨active, stored, rfl⟩ := animationAt_eq_some_iff.mp shows
  rw [getElem?_setData] at stored
  by_cases own : turn = index
  · subst own
    rw [if_pos rfl, found] at stored
    cases stored
    exact ⟨⟨self, world.frame⟩, [.tick world.map keys], animationAt_eq_some_iff.mpr ⟨true, found, rfl⟩, rfl⟩
  · rw [if_neg own] at stored
    exact ⟨⟨player, world.frame⟩, [.others _], animationAt_eq_some_iff.mpr ⟨active, stored, rfl⟩, rfl⟩

theorem doorTurn_leadsTo {turn : Nat} {self : Door K} {main : Player K}
    (found : world.manager.entities[turn]? = some ⟨.door self, true⟩) (read : world.manager.player = .ok main)
    (shows : World.animationAt { world with
      manager := (world.manager.setData turn (.door (updateDoor self main).1)).setPlayer (updateDoor self main).2 }
      index = some last) : LeadsTo world index last := by
  obtain ⟨player, frame⟩ := last
  obtain ⟨active, stored, rfl⟩ := animationAt_eq_some_iff.mp shows
  rcases player_updateDoor found read stored with ⟨-, mainFound, rfl⟩ | kept
  · exact ⟨⟨main, world.frame⟩, [.push self], animationAt_eq_some_iff.mpr ⟨active, mainFound, rfl⟩, rfl⟩
  · exact ⟨⟨player, world.frame⟩, [], animationAt_eq_some_iff.mpr ⟨active, kept, rfl⟩, rfl⟩

theorem actStep_leadsTo {act : Act} (taken : actStep world act = .ok next) (shows : next.animationAt index = some last) :
    LeadsTo world index last := by
  cases act with
  | turn keys turn =>
    cases entityUpdated_of_ok taken with
    | player found => exact playerTurn_leadsTo found shows
    | door found read => exact doorTurn_leadsTo found read shows
    | skipped idle => exact ⟨last, [], shows, rfl⟩
  | message doorId state =>
    cases taken
    obtain ⟨active, stored, same⟩ := animationAt_eq_some_iff.mp shows
    refine ⟨last, [], animationAt_eq_some_iff.mpr ⟨active, ?_, same⟩, rfl⟩
    rcases openDoor_getElem? world.manager doorId state index with kept | ⟨door, _, _, changed⟩
    · exact kept.symm.trans stored
    · cases changed.symm.trans stored

theorem run_leadsTo {acts : List Act} (reached : run actStep start acts = .ok world)
    (shows : world.animationAt index = some last) : LeadsTo start index last := by
  refine run_keeps (fun state => ∀ last, state.animationAt index = some last → LeadsTo start index last)
    (fun state act next leads taken last shows => ?_) (fun last shows => ⟨last, [], shows, rfl⟩) reached last shows
  obtain ⟨middle, late, before, arrives⟩ := actStep_leadsTo taken shows
  obtain ⟨first, early, there, leaves⟩ := leads middle before
  refine ⟨first, early ++ late, there, ?_⟩
  rw [run_append, leaves]
  exact arrives

/-- Every player of a level that is played comes from `create_player` by such events. -/
theorem level_animation {loads : Bytes → Bool} {file : Option Json} {loaded : LoadedMap K} {frame : Int}
    {events : List WorldEvent} (read : getMap loads file = .ok (some loaded))
    (reached : run worldStep (loaded.world frame) events = .ok world) (shows : world.animationAt index = some last) :
    ∃ pos id steps, run animationStep ⟨createPlayer pos id, frame⟩ steps = .ok last := by
  rw [run_eq_acts] at reached
  obtain ⟨first, steps, before, arrives⟩ := run_leadsTo reached shows
  obtain ⟨active, found, same⟩ := animationAt_eq_some_iff.mp before
  obtain ⟨pos, id, created⟩ := (getMap_fresh read _ (List.mem_of_getElem? found)).2 first.player rfl
  obtain ⟨player, _⟩ := first
  cases created
  cases same
  exact ⟨pos, id, steps, arrives⟩

theorem run_frameBounds {first : Animation K} {events : List (PlayerEvent K)}
    (bounds : 0 ≤ first.player.currentFrame ∧ first.player.currentFrame < maxFrames)
    (reached : run animationStep first events = .ok last) :
    0 ≤ last.player.currentFrame ∧ last.player.currentFrame < maxFrames := by
  refine run_keeps (fun state : Animation K => 0 ≤ state.player.currentFrame ∧ state.player.currentFrame < maxFrames)
    (fun state event next bounds taken => ?_) bounds reached
  cases event with
  | tick map keys =>
    cases taken
    exact updatePlayer_frameBounds state.player keys map state.frame bounds
  | push door =>
    cases taken
    dsimp only
    rw [(updateDoor_frame state.player door).1]
    exact bounds
  | others frame =>
    cases taken
    exact bounds

/-- No run of a level leaves the ten frames, in whatever arithmetic. -/
theorem level_frameBounds {loads : Bytes → Bool} {file : Option Json} {loaded : LoadedMap K} {frame : Int}
    {events : List WorldEvent} (read : getMap loads file = .ok (some loaded))
    (reached : run worldStep (loaded.world frame) events = .ok world) (shows : world.animationAt index = some last) :
    0 ≤ last.player.currentFrame ∧ last.player.currentFrame < maxFrames := by
  obtain ⟨pos, id, steps, arrives⟩ := level_animation read reached shows
  exact run_frameBounds ⟨le_refl _, show 0 < maxFrames by decide⟩ arrives

end

end Trigger.Engine
