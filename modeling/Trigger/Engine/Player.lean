import Trigger.Engine.Geometry
import Trigger.Engine.Tiles

/-! The player: keys, gravity, and the collision with the tiles of the map. -/

set_option autoImplicit false

namespace Trigger.Engine
open Foundation Config

def mapTileSize : Int := 32

inductive PlayerState where
  | idle
  | go
  | run
  | jump
  deriving DecidableEq, Repr

structure Player (K : Type) where
  id : Int
  velocity : Vector2 K
  pos : Vector2 K
  currentFrame : Int
  tileSize : Int
  flip : Int
  onGround : Bool
  state : PlayerState
  deriving DecidableEq

/-- `IsKeyDown` of D, A and the left shift, `IsKeyPressed` of space. -/
structure MoveKeys where
  d : Bool
  a : Bool
  leftShift : Bool
  space : Bool
  deriving DecidableEq, Repr

variable {K : Type} [Scalar K]

def createPlayer (pos : Vector2 K) (id : Int) : Player K where
  id := id
  velocity := vector2Zero
  pos := pos
  currentFrame := 0
  tileSize := 1280 / 10
  flip := 1
  onGround := false
  state := .idle

/-! ## check_collision_pl -/

/-- The direction argument: 0 after the horizontal move, 1 after the vertical one. -/
inductive Axis where
  | horizontal
  | vertical
  deriving DecidableEq, Repr

def Player.hitRight (player : Player K) (axis : Axis) (j : Int) : Player K :=
  if ofInt 0 < player.velocity.x ∧ axis = .horizontal then
    { player with
      pos := { player.pos with x := ofInt (j * mapTileSize - 32) }
      velocity := { player.velocity with x := ofInt 0 } }
  else player

def Player.hitLeft (player : Player K) (axis : Axis) (j : Int) : Player K :=
  if player.velocity.x < ofInt 0 ∧ axis = .horizontal then
    { player with
      pos := { player.pos with x := ofInt (j * mapTileSize + 32) }
      velocity := { player.velocity with x := ofInt 0 } }
  else player

def Player.hitBottom (player : Player K) (axis : Axis) (i : Int) : Player K :=
  if ofInt 0 < player.velocity.y ∧ axis = .vertical then
    { player with
      pos := { player.pos with y := ofInt (i * mapTileSize - 64) }
      onGround := true
      velocity := { player.velocity with y := ofInt 0 } }
  else player

def Player.hitTop (player : Player K) (axis : Axis) (i : Int) : Player K :=
  if player.velocity.y < ofInt 0 ∧ axis = .vertical then
    { player with
      pos := { player.pos with y := ofInt (i * mapTileSize + mapTileSize) }
      onGround := false
      velocity := { player.velocity with y := ofInt 0 } }
  else player

/-- The four tests of the loop body, each on what the ones before it left. -/
def Player.hitCell (player : Player K) (axis : Axis) (i j : Int) : Player K :=
  (((player.hitRight axis j).hitLeft axis j).hitBottom axis i).hitTop axis i

def intRange (first last : Int) : List Int :=
  (List.range (last - first + 1).toNat).map fun (k : Nat) => first + k

/-- The cells the two loops visit; their bounds are computed once, before the loops. -/
def scannedCells (pos : Vector2 K) : List (Int × Int) :=
  let startX := (Scalar.trunc pos.x).tdiv mapTileSize
  let startY := (Scalar.trunc pos.y).tdiv mapTileSize
  let endX := (Scalar.trunc pos.x + 32 - 1).tdiv mapTileSize
  let endY := (Scalar.trunc pos.y + 64 - 1).tdiv mapTileSize
  (intRange startY endY).flatMap fun i => (intRange startX endX).map fun j => (i, j)

/-- The player after the loop, and whether it returned at a level end. -/
def collideCells (map : MapLayout) (axis : Axis) : List (Int × Int) → Player K → Player K × Bool
  | [], player => (player, false)
  | (i, j) :: rest, player =>
    match map.at? i j with
    | none => collideCells map axis rest player
    | some value =>
      match contactOf value with
      | .free => collideCells map axis rest player
      -- The return leaves the rest of the cells uninspected.
      | .levelEnd => (player, true)
      | .solid => collideCells map axis rest (player.hitCell axis i j)

def checkCollisionPl (map : MapLayout) (axis : Axis) (player : Player K) : Player K × Bool :=
  collideCells map axis (scannedCells player.pos) player

/-! ## update_player -/

def Player.walk (player : Player K) (keys : MoveKeys) : Player K :=
  let speed := if keys.leftShift then ofInt 3 else ofInt 1
  let player :=
    if keys.d then
      { player with velocity := { player.velocity with x := player.velocity.x + speed }, flip := 1 }
    else player
  if keys.a then
    { player with velocity := { player.velocity with x := player.velocity.x - speed }, flip := -1 }
  else player

def Player.leap (player : Player K) (keys : MoveKeys) : Player K :=
  if keys.space ∧ player.onGround then
    { player with
      velocity := { player.velocity with y := player.velocity.y - ofInt 6 }
      onGround := false
      currentFrame := 0 }
  else player

def Player.fall (player : Player K) : Player K :=
  -- `fminf` of the velocity and 2 is below 2 exactly while the velocity is.
  let gravity : K :=
    if fminf player.velocity.y (ofInt 2) < ofInt 2 then Scalar.ofRat (1 / 5) else ofInt 0
  let y := player.velocity.y + gravity
  { player with
    velocity := { player.velocity with y }
    onGround := if ofInt 0 < y then false else player.onGround }

def Player.moveX (player : Player K) : Player K :=
  { player with pos := { player.pos with x := player.pos.x + player.velocity.x } }

def Player.moveY (player : Player K) : Player K :=
  { player with pos := { player.pos with y := player.pos.y + (player.velocity.y + ofInt 1) } }

def Player.stand (player : Player K) (keys : MoveKeys) : Player K :=
  { player with state :=
      if player.onGround = false then .jump
      else if keys.d ∨ keys.a then (if keys.leftShift then .run else .go)
      else .idle }

/-- The animation, driven by the frame counter all players share. -/
def Player.animate (player : Player K) (frame : Int) : Player K × Int :=
  if (frame + 1).tmod 6 = 0 then
    if player.state = .jump then
      (if (player.currentFrame + 1).tmod 6 = 0 then player
        else { player with currentFrame := (player.currentFrame + 1).tmod 6 }, frame + 1)
    else ({ player with currentFrame := (player.currentFrame + 1).tmod 10 }, 0)
  else (player, frame + 1)

/-- What a tick of the player leaves: itself, the frame counter, and whether one of
the two collision checks reached a level end. -/
structure PlayerTick (K : Type) where
  player : Player K
  frame : Int
  ended : Bool

def Player.start (player : Player K) (keys : MoveKeys) : Player K := ((player.walk keys).leap keys).fall

def updatePlayer (map : MapLayout) (keys : MoveKeys) (frame : Int) (player : Player K) : PlayerTick K :=
  let (player, endedX) := checkCollisionPl map .horizontal (player.start keys).moveX
  -- The vertical check runs even when the horizontal one met a level end.
  let (player, endedY) := checkCollisionPl map .vertical player.moveY
  let (player, frame) := (player.stand keys).animate frame
  ⟨{ player with velocity := { player.velocity with x := ofInt 0 } }, frame, endedX || endedY⟩

def contactAt (map : MapLayout) (cell : Int × Int) : Contact := (map.at? cell.1 cell.2).elim .free contactOf

/-- The solid cell that stops the check, which is the first positive one of those inspected. -/
def firstSolid (map : MapLayout) (cells : List (Int × Int)) : Option (Int × Int) :=
  (cells.find? fun cell => contactAt map cell ≠ .free).filter fun cell => contactAt map cell = .solid

theorem hitCell_horizontal (player : Player K) (i j : Int) :
    player.hitCell .horizontal i j = (player.hitRight .horizontal j).hitLeft .horizontal j := by
  simp [Player.hitCell, Player.hitBottom, Player.hitTop]

theorem hitCell_vertical (player : Player K) (i j : Int) :
    player.hitCell .vertical i j = (player.hitBottom .vertical i).hitTop .vertical i := by
  simp [Player.hitCell, Player.hitRight, Player.hitLeft]

/-- A player that was stopped is not moved by another cell. -/
theorem hitCell_again (irrefl : ¬ (ofInt 0 : K) < ofInt 0) (player : Player K) (axis : Axis) (i j k l : Int) :
    (player.hitCell axis i j).hitCell axis k l = player.hitCell axis i j := by
  cases axis with
  | horizontal =>
    rw [hitCell_horizontal, hitCell_horizontal]
    by_cases right : ofInt 0 < player.velocity.x
    · simp [Player.hitRight, Player.hitLeft, right, irrefl]
    · by_cases left : player.velocity.x < ofInt 0 <;> simp [Player.hitRight, Player.hitLeft, right, left, irrefl]
  | vertical =>
    rw [hitCell_vertical, hitCell_vertical]
    by_cases down : ofInt 0 < player.velocity.y
    · simp [Player.hitBottom, Player.hitTop, down, irrefl]
    · by_cases up : player.velocity.y < ofInt 0 <;> simp [Player.hitBottom, Player.hitTop, down, up, irrefl]

/-- The check, told by the cell that stops it. -/
theorem collideCells_fst (irrefl : ¬ (ofInt 0 : K) < ofInt 0) (map : MapLayout) (axis : Axis)
    (cells : List (Int × Int)) (player : Player K) :
    (collideCells map axis cells player).1 =
      (firstSolid map cells).elim player fun cell => player.hitCell axis cell.1 cell.2 := by
  induction cells generalizing player with
  | nil => rfl
  | cons cell rest ih =>
    obtain ⟨i, j⟩ := cell
    have skipped (free : contactAt map (i, j) = .free) : firstSolid map ((i, j) :: rest) = firstSolid map rest := by
      simp [firstSolid, free]
    rw [collideCells]
    cases found : map.at? i j with
    | none =>
      have free : contactAt map (i, j) = .free := by simp [contactAt, found]
      rw [skipped free]
      exact ih player
    | some value =>
      have here : contactAt map (i, j) = contactOf value := by simp [contactAt, found]
      cases contact : contactOf value with
      | free =>
        rw [skipped (here.trans contact)]
        simpa only [contact] using ih player
      | levelEnd =>
        have stops : firstSolid map ((i, j) :: rest) = none := by simp [firstSolid, here, contact]
        simp only [stops, contact, Option.elim_none]
      | solid =>
        have stops : firstSolid map ((i, j) :: rest) = some (i, j) := by simp [firstSolid, here, contact]
        -- The contact stops the player, so what comes behind it moves the player no more.
        have stopped : ((firstSolid map rest).elim (player.hitCell axis i j) fun cell =>
            (player.hitCell axis i j).hitCell axis cell.1 cell.2) = player.hitCell axis i j := by
          cases firstSolid map rest with
          | none => rfl
          | some cell => exact hitCell_again irrefl player axis i j cell.1 cell.2
        simp only [stops, contact, Option.elim_some]
        exact (ih (player.hitCell axis i j)).trans stopped

theorem collideCells_snd {map : MapLayout} {axis : Axis} {cells : List (Int × Int)} {player : Player K} :
    (collideCells map axis cells player).2 = true ↔ ∃ cell ∈ cells, contactAt map cell = .levelEnd := by
  induction cells generalizing player with
  | nil => simp [collideCells]
  | cons cell rest ih =>
    obtain ⟨i, j⟩ := cell
    rw [collideCells, List.exists_mem_cons_iff]
    cases found : map.at? i j with
    | none => simp [contactAt, found, ih]
    | some value => cases contact : contactOf value <;> simp [contactAt, found, contact, ih]

theorem collideCells_keeps (kept : Player K → Prop) {axis : Axis}
    (hit : ∀ player i j, kept player → kept (player.hitCell axis i j)) (map : MapLayout) (cells : List (Int × Int))
    {player : Player K} (holds : kept player) : kept (collideCells map axis cells player).1 := by
  induction cells generalizing player with
  | nil => exact holds
  | cons cell rest ih =>
    rw [collideCells]
    split
    · exact ih holds
    · split
      · exact ih holds
      · exact holds
      · exact ih (hit player _ _ holds)

section
variable (player : Player K) (keys : MoveKeys) (axis : Axis) (map : MapLayout) (i j : Int)

theorem hitRight_id : (player.hitRight axis j).id = player.id := by
  unfold Player.hitRight
  split <;> rfl

theorem hitLeft_id : (player.hitLeft axis j).id = player.id := by
  unfold Player.hitLeft
  split <;> rfl

theorem hitBottom_id : (player.hitBottom axis i).id = player.id := by
  unfold Player.hitBottom
  split <;> rfl

theorem hitTop_id : (player.hitTop axis i).id = player.id := by
  unfold Player.hitTop
  split <;> rfl

theorem hitCell_id : (player.hitCell axis i j).id = player.id := by
  rw [Player.hitCell, hitTop_id, hitBottom_id, hitLeft_id, hitRight_id]

theorem checkCollisionPl_id : (checkCollisionPl map axis player).1.id = player.id :=
  collideCells_keeps (fun self => self.id = player.id) (fun self i j same => (hitCell_id self axis i j).trans same) map _ rfl

theorem walk_id : (player.walk keys).id = player.id := by
  unfold Player.walk
  dsimp only
  split <;> split <;> rfl

theorem leap_id : (player.leap keys).id = player.id := by
  unfold Player.leap
  split <;> rfl

theorem start_id : (player.start keys).id = player.id := (leap_id (player.walk keys) keys).trans (walk_id player keys)

omit [Scalar K] in
theorem animate_id (frame : Int) : (player.animate frame).1.id = player.id := by
  unfold Player.animate
  split
  · split
    · dsimp only
      split <;> rfl
    · rfl
  · rfl

theorem updatePlayer_id (frame : Int) : (updatePlayer map keys frame player).player.id = player.id := by
  have aside := (checkCollisionPl_id (player.start keys).moveX .horizontal map).trans (start_id player keys)
  have down := (checkCollisionPl_id (checkCollisionPl map .horizontal (player.start keys).moveX).1.moveY
    .vertical map).trans aside
  exact (animate_id _ frame).trans down

end

def Player.checkedX (player : Player K) (map : MapLayout) (keys : MoveKeys) : Player K :=
  (checkCollisionPl map .horizontal (player.start keys).moveX).1

def Player.checkedY (player : Player K) (map : MapLayout) (keys : MoveKeys) : Player K :=
  (checkCollisionPl map .vertical (player.checkedX map keys).moveY).1

theorem walk_upright (player : Player K) (keys : MoveKeys) :
    (player.walk keys).velocity.y = player.velocity.y ∧ (player.walk keys).onGround = player.onGround ∧
      (player.walk keys).pos = player.pos := by
  obtain ⟨d, a, leftShift, space⟩ := keys
  cases d <;> cases a <;> exact ⟨rfl, rfl, rfl⟩

theorem moveY_onGround (player : Player K) : player.moveY.onGround = player.onGround := rfl

theorem moveY_velocity (player : Player K) : player.moveY.velocity = player.velocity := rfl

theorem horizontal_upright (player : Player K) (i j : Int) :
    (player.hitCell .horizontal i j).velocity.y = player.velocity.y ∧
      (player.hitCell .horizontal i j).onGround = player.onGround := by
  rw [hitCell_horizontal]
  unfold Player.hitRight Player.hitLeft
  split <;> split <;> exact ⟨rfl, rfl⟩

theorem checkedX_upright (map : MapLayout) (keys : MoveKeys) (player : Player K) :
    (player.checkedX map keys).velocity.y = (player.start keys).velocity.y ∧
      (player.checkedX map keys).onGround = (player.start keys).onGround := by
  refine collideCells_keeps (fun self : Player K => self.velocity.y = (player.start keys).velocity.y ∧
    self.onGround = (player.start keys).onGround) ?_ map _ ⟨rfl, rfl⟩
  rintro self i j ⟨velocity, ground⟩
  obtain ⟨sameVelocity, sameGround⟩ := horizontal_upright self i j
  exact ⟨sameVelocity.trans velocity, sameGround.trans ground⟩

omit [Scalar K] in
theorem animate_kept (player : Player K) (frame : Int) :
    (player.animate frame).1.pos = player.pos ∧ (player.animate frame).1.velocity = player.velocity ∧
      (player.animate frame).1.onGround = player.onGround := by
  unfold Player.animate
  split
  · split
    · dsimp only
      split <;> exact ⟨rfl, rfl, rfl⟩
    · exact ⟨rfl, rfl, rfl⟩
  · exact ⟨rfl, rfl, rfl⟩

omit [Scalar K] in
theorem stand_kept (player : Player K) (keys : MoveKeys) : (player.stand keys).pos = player.pos ∧
    (player.stand keys).velocity = player.velocity ∧ (player.stand keys).onGround = player.onGround := ⟨rfl, rfl, rfl⟩

theorem updatePlayer_player (map : MapLayout) (keys : MoveKeys) (frame : Int) (player : Player K) :
    (updatePlayer map keys frame player).player = { (((player.checkedY map keys).stand keys).animate frame).1 with
      velocity := { (((player.checkedY map keys).stand keys).animate frame).1.velocity with x := ofInt 0 } } := by
  unfold updatePlayer Player.checkedY Player.checkedX
  rfl

theorem updatePlayer_pos (map : MapLayout) (keys : MoveKeys) (frame : Int) (player : Player K) :
    (updatePlayer map keys frame player).player.pos = (player.checkedY map keys).pos := by
  rw [updatePlayer_player]
  exact (animate_kept ((player.checkedY map keys).stand keys) frame).1.trans (stand_kept _ keys).1

theorem updatePlayer_upright (map : MapLayout) (keys : MoveKeys) (frame : Int) (player : Player K) :
    (updatePlayer map keys frame player).player.velocity.y = (player.checkedY map keys).velocity.y ∧
      (updatePlayer map keys frame player).player.onGround = (player.checkedY map keys).onGround := by
  obtain ⟨_, velocity, ground⟩ := animate_kept ((player.checkedY map keys).stand keys) frame
  obtain ⟨_, sameVelocity, sameGround⟩ := stand_kept (player.checkedY map keys) keys
  rw [updatePlayer_player]
  dsimp only
  rw [velocity, ground, sameVelocity, sameGround]
  exact ⟨rfl, rfl⟩

/-- Of the cells inspected at the target of the step to the side, or then at that of the
fall, one is a level end. -/
def Player.MeetsEnd (player : Player K) (map : MapLayout) (keys : MoveKeys) : Prop :=
  ∃ cell ∈ scannedCells (player.start keys).moveX.pos ++ scannedCells (player.checkedX map keys).moveY.pos,
    contactAt map cell = .levelEnd

instance (player : Player K) (map : MapLayout) (keys : MoveKeys) : Decidable (player.MeetsEnd map keys) :=
  inferInstanceAs (Decidable (∃ cell ∈ _, _))

theorem updatePlayer_ended_iff (map : MapLayout) (keys : MoveKeys) (frame : Int) (player : Player K) :
    (updatePlayer map keys frame player).ended = true ↔ player.MeetsEnd map keys := by
  have checks : (updatePlayer map keys frame player).ended =
      ((checkCollisionPl map .horizontal (player.start keys).moveX).2 ||
        (checkCollisionPl map .vertical (player.checkedX map keys).moveY).2) := rfl
  rw [checks, Bool.or_eq_true, checkCollisionPl, checkCollisionPl, collideCells_snd, collideCells_snd,
    Player.MeetsEnd]
  simp only [List.mem_append, or_and_right, exists_or]

end Trigger.Engine
