import Trigger.Engine.NonPenetration
import Mathlib.Tactic.FieldSimp
import Mathlib.Tactic.Linarith
import Mathlib.Tactic.NormNum

/-! Velocity and ground flag over whole runs, in exact arithmetic.

The flag is set where the player comes to rest on something, and only there; every
tick of the player begins by leaving the ground. So a jump starts from rest, and the
velocity stays between that of a jump and the limit of the fall.
-/

set_option autoImplicit false

namespace Trigger.Engine
open Foundation Config

/-- The updates of single entities, and the messages between the ticks. -/
inductive Act where
  | turn (keys : MoveKeys) (index : Nat)
  | message (doorId state : Int)
  deriving DecidableEq, Repr

section
variable {K : Type} [Scalar K]

def actStep (world : World K) : Act → Except Fault (World K)
  | .turn keys index => updateEntity keys world index
  | .message doorId state => .ok { world with manager := openDoor world.manager doorId state }

def actsOf (count : Nat) : WorldEvent → List Act
  | .tick keys => (List.range count).map fun index => .turn keys index
  | .doorMessage doorId state => [.message doorId state]

theorem worldStep_eq_acts (world : World K) (event : WorldEvent) :
    worldStep world event = run actStep world (actsOf world.manager.count event) := by
  cases event with
  | tick keys => rw [worldStep, updateAllEntities, foldlM_eq_run, actsOf, run_map]; rfl
  | doorMessage doorId state => rfl

theorem count_actStep {world next : World K} {act : Act} (taken : actStep world act = .ok next) :
    next.manager.count = world.manager.count := by
  cases act with
  | turn keys index =>
    cases entityUpdated_of_ok taken with
    | player found => exact count_setData
    | door found read => exact count_setPlayer.trans count_setData
    | skipped idle => rfl
  | message doorId state =>
    cases taken
    exact count_openDoor

theorem count_run {world next : World K} {acts : List Act} (reached : run actStep world acts = .ok next) :
    next.manager.count = world.manager.count :=
  run_keeps (fun state => state.manager.count = world.manager.count)
    (fun _ _ _ same taken => (count_actStep taken).trans same) rfl reached

/-- A run of events is the run of their acts. -/
theorem run_eq_acts (world : World K) (events : List WorldEvent) :
    run worldStep world events = run actStep world (events.flatMap (actsOf world.manager.count)) := by
  induction events generalizing world with
  | nil => rfl
  | cons event rest ih =>
    rw [run, List.flatMap_cons, run_append, worldStep_eq_acts]
    cases taken : run actStep world (actsOf world.manager.count event) with
    | error fault => rfl
    | ok next =>
      have same := count_run taken
      change run worldStep next rest = run actStep next _
      rw [ih next, same]

end

/-- A multiple of a fifth from the speed of a jump to the limit of the fall. -/
def FlightSpeed (speed : Rat) : Prop := ∃ k : Int, speed = k / 5 ∧ -29 ≤ k ∧ k ≤ 10

/-- Velocity and ground flag as every tick leaves them. -/
structure Consistent (player : Player Rat) : Prop where
  still : player.velocity.x = 0
  speed : FlightSpeed player.velocity.y
  grounded : player.onGround = true → player.velocity.y = 0

theorem FlightSpeed.zero : FlightSpeed 0 := ⟨0, by norm_num, by omega, by omega⟩

theorem FlightSpeed.bounds {speed : Rat} (flight : FlightSpeed speed) : -29 / 5 ≤ speed ∧ speed ≤ 2 := by
  obtain ⟨k, rfl, low, high⟩ := flight
  have lower : (-29 : Rat) ≤ k := by exact_mod_cast low
  have upper : (k : Rat) ≤ 10 := by exact_mod_cast high
  constructor <;> linarith

theorem Consistent.settled {player : Player Rat} (consistent : Consistent player) : Settled player := by
  obtain ⟨rising, falling⟩ := consistent.speed.bounds
  exact ⟨consistent.still, consistent.grounded, by linarith, by linarith⟩

theorem FlightSpeed.fall {speed : Rat} (flight : FlightSpeed speed) :
    FlightSpeed (speed + if speed < 2 then 1 / 5 else 0) := by
  obtain ⟨k, rfl, low, high⟩ := flight
  split
  · rename_i slow
    have below : (k : Rat) < 10 := by linarith
    have step : k < 10 := by exact_mod_cast below
    exact ⟨k + 1, by push_cast; ring, by omega, by omega⟩
  · exact ⟨k, by ring, low, high⟩

theorem start_speed {player : Player Rat} (consistent : Consistent player) (keys : MoveKeys) :
    FlightSpeed (player.start keys).velocity.y := by
  obtain ⟨velocity, ground, -⟩ := walk_upright player keys
  have six : (ofInt 6 : Rat) = 6 := rfl
  rw [Player.start, fall_eq, Player.leap]
  split
  · rename_i jumps
    have rest : (player.walk keys).velocity.y = 0 := velocity.trans (consistent.grounded (ground ▸ jumps.2))
    refine ⟨-29, ?_, by omega, by omega⟩
    norm_num [rest, six]
  · dsimp only
    rw [velocity]
    exact consistent.speed.fall

/-- The tick ends on the upper side of a solid cell that was met while falling. -/
structure LandsOn (map : MapLayout) (keys : MoveKeys) (frame : Int) (player : Player Rat) (i j : Int) : Prop where
  falling : 0 < (player.start keys).velocity.y
  inspected : (i, j) ∈ scannedCells (player.checkedX map keys).moveY.pos
  solid : SolidAt map i j
  top : (updatePlayer map keys frame player).player.pos.y = ((i * 32 - 64 : Int) : Rat)

theorem updatePlayer_consistent {player : Player Rat} (consistent : Consistent player) (map : MapLayout)
    (keys : MoveKeys) (frame : Int) :
    Consistent (updatePlayer map keys frame player).player ∧
      ((updatePlayer map keys frame player).player.onGround = true →
        ∃ i j, LandsOn map keys frame player i j) := by
  obtain ⟨velocity, ground⟩ := updatePlayer_upright map keys frame player
  obtain ⟨sameVelocity, sameGround⟩ := checkedX_upright map keys player
  have airborne : (player.checkedX map keys).onGround = false :=
    sameGround.trans (start_moving consistent.settled keys).1.airborne
  have speed : FlightSpeed (player.checkedX map keys).velocity.y := sameVelocity ▸ start_speed consistent keys
  have still : (updatePlayer map keys frame player).player.velocity.x = 0 := rfl
  rcases collideCells_moves map .vertical (scannedCells (player.checkedX map keys).moveY.pos)
      (player.checkedX map keys).moveY with same | ⟨⟨i, j⟩, member, solid, same⟩
  · have moved : player.checkedY map keys = (player.checkedX map keys).moveY := same
    have flies : (updatePlayer map keys frame player).player.onGround = false := by
      rw [ground, moved, moveY_onGround]
      exact airborne
    refine ⟨⟨still, ?_, ?_⟩, ?_⟩
    · rw [velocity, moved, moveY_velocity]
      exact speed
    · rw [flies]
      exact nofun
    · rw [flies]
      exact nofun
  · have moved : player.checkedY map keys = (player.checkedX map keys).moveY.hitCell .vertical i j := same
    have stopped : (updatePlayer map keys frame player).player.velocity.y = 0 := by
      rw [velocity, moved]
      exact hitCell_speed _ .vertical i j
    refine ⟨⟨still, stopped ▸ FlightSpeed.zero, fun _ => stopped⟩, fun lands => ?_⟩
    rw [ground, moved] at lands
    have falling : 0 < (player.checkedX map keys).moveY.velocity.y := by
      by_contra other
      rcases lt_or_eq_of_le (not_lt.mp other) with rising | rest
      · rw [hitCell_top _ rising] at lands
        cases lands
      · rw [hitCell_still (show (player.checkedX map keys).moveY.speed .vertical = 0 from rest)] at lands
        rw [moveY_onGround, airborne] at lands
        cases lands
    refine ⟨i, j, sameVelocity ▸ falling, member, solid, ?_⟩
    rw [updatePlayer_pos, moved, hitCell_bottom _ falling]

/-- The moves of a tick before the checks correct them. -/
structure OwnMove (map : MapLayout) (keys : MoveKeys) (player : Player Rat) : Prop where
  sideways : |(player.start keys).moveX.pos.x - player.pos.x| ≤ 3
  up : -24 / 5 ≤ (player.checkedX map keys).moveY.pos.y - (player.checkedX map keys).pos.y
  down : (player.checkedX map keys).moveY.pos.y - (player.checkedX map keys).pos.y ≤ 3

theorem Consistent.ownMove {player : Player Rat} (consistent : Consistent player) (map : MapLayout)
    (keys : MoveKeys) : OwnMove map keys player := by
  obtain ⟨moving, place⟩ := start_moving consistent.settled keys
  obtain ⟨rising, falling⟩ := (start_speed consistent keys).bounds
  have across : (player.start keys).moveX.pos.x - player.pos.x = (player.start keys).velocity.x := by
    rw [Player.moveX, place]
    exact add_sub_cancel_left ..
  have down : (player.checkedX map keys).moveY.pos.y - (player.checkedX map keys).pos.y =
      (player.start keys).velocity.y + 1 := by
    rw [← (checkedX_upright map keys player).1]
    exact add_sub_cancel_left ..
  exact ⟨across ▸ abs_le.mpr moving.sideways, by rw [down]; linarith, by rw [down]; linarith⟩

theorem updateDoor_consistent {player : Player Rat} (consistent : Consistent player) (door : Door Rat) :
    Consistent (updateDoor door player).2 ∧
      ((updateDoor door player).2.onGround = true → player.onGround = true ∨
        MeetsDoor player.pos door.lift ∧ door.lift.nearest player.pos = .above) := by
  by_cases meets : MeetsDoor player.pos door.lift
  · rw [updateDoor_of_meets meets]
    obtain ⟨still, speed, grounded⟩ := consistent
    cases side : door.lift.nearest player.pos with
    | left => exact ⟨⟨still, speed, grounded⟩, .inl⟩
    | right => exact ⟨⟨still, speed, grounded⟩, .inl⟩
    | above => exact ⟨⟨still, FlightSpeed.zero, fun _ => rfl⟩, fun _ => .inr ⟨meets, rfl⟩⟩
    | below => exact ⟨⟨still, FlightSpeed.zero, fun _ => rfl⟩, .inl⟩
  · rw [updateDoor_of_apart meets]
    exact ⟨consistent, .inl⟩

def PlayersConsistent (manager : EntityManager Rat) : Prop :=
  ∀ (index : Nat) (self : Player Rat) (active : Bool),
    manager.entities[index]? = some ⟨.player self, active⟩ → Consistent self

def Grounded (manager : EntityManager Rat) (index : Nat) : Prop :=
  ∃ self active, manager.entities[index]? = some ⟨.player self, active⟩ ∧ self.onGround = true

/-- The act brings the player in this slot to rest: its own move ends on a solid cell, or
a door sets it on its upper side. -/
inductive Landing (before : World Rat) (index : Nat) : Act → Prop where
  | cell {keys : MoveKeys} {self : Player Rat} {i j : Int} :
      before.manager.entities[index]? = some ⟨.player self, true⟩ →
      LandsOn before.map keys before.frame self i j → Landing before index (.turn keys index)
  | door {keys : MoveKeys} {other : Nat} {door : Door Rat} {self : Player Rat} :
      before.manager.entities[other]? = some ⟨.door door, true⟩ → before.manager.playerIdx = some index →
      before.manager.player = .ok self → MeetsDoor self.pos door.lift → door.lift.nearest self.pos = .above →
      Landing before index (.turn keys other)

section
variable {manager : EntityManager Rat} {index : Nat} {self : Player Rat}

theorem PlayersConsistent.player (consistent : PlayersConsistent manager) (read : manager.player = .ok self) :
    Consistent self := by
  obtain ⟨here, active, _, found⟩ := player_ok_iff.mp read
  exact consistent here self active found

theorem playersConsistent_setData (consistent : PlayersConsistent manager) {data : EntityData Rat}
    (kept : ∀ self, data = .player self → Consistent self) : PlayersConsistent (manager.setData index data) := by
  intro other self active found
  rw [getElem?_setData] at found
  split at found
  · obtain ⟨before, _, same⟩ := Option.map_eq_some_iff.mp found
    exact kept self (congrArg Entity.data same)
  · exact consistent other self active found

theorem playersConsistent_setPlayer (consistent : PlayersConsistent manager) (kept : Consistent self) :
    PlayersConsistent (manager.setPlayer self) := by
  unfold EntityManager.setPlayer
  split
  · refine playersConsistent_setData consistent fun other same => ?_
    cases same
    exact kept
  · exact consistent

theorem playersConsistent_openDoor (consistent : PlayersConsistent manager) (doorId state : Int) :
    PlayersConsistent (openDoor manager doorId state) := by
  intro index self active found
  rcases openDoor_getElem? manager doorId state index with same | ⟨door, _, _, changed⟩
  · exact consistent index self active (same ▸ found)
  · rw [changed] at found
    cases found

end

/-- The act lands the player of the slot, or that player was on the ground and the act
is not its own move. -/
def GroundedBy (before : World Rat) (index : Nat) (act : Act) : Prop :=
  Landing before index act ∨ Grounded before.manager index ∧
    ∀ keys self, act = .turn keys index → before.manager.entities[index]? ≠ some ⟨.player self, true⟩

theorem playerTurn_grounded {before : World Rat} {keys : MoveKeys} {turn index : Nat} {self : Player Rat}
    (consistent : PlayersConsistent before.manager)
    (found : before.manager.entities[turn]? = some ⟨.player self, true⟩)
    (grounded : Grounded (before.manager.setData turn
      (.player (updatePlayer before.map keys before.frame self).player)) index) :
    GroundedBy before index (.turn keys turn) := by
  obtain ⟨after, active, stored, lands⟩ := grounded
  rw [getElem?_setData] at stored
  by_cases here : turn = index
  · subst here
    rw [if_pos rfl, found, Option.map_some] at stored
    cases stored
    obtain ⟨i, j, landed⟩ := (updatePlayer_consistent (consistent turn self true found) before.map keys
      before.frame).2 lands
    exact .inl (.cell found landed)
  · rw [if_neg here] at stored
    refine .inr ⟨⟨after, active, stored, lands⟩, fun otherKeys other same => ?_⟩
    cases same
    exact absurd rfl here

theorem doorTurn_grounded {before : World Rat} {keys : MoveKeys} {turn index : Nat} {self : Door Rat}
    {player : Player Rat} (consistent : PlayersConsistent before.manager)
    (found : before.manager.entities[turn]? = some ⟨.door self, true⟩) (read : before.manager.player = .ok player)
    (grounded : Grounded ((before.manager.setData turn (.door (updateDoor self player).1)).setPlayer
      (updateDoor self player).2) index) :
    GroundedBy before index (.turn keys turn) := by
  have notOwn (other : MoveKeys) (own : Player Rat) (same : Act.turn keys turn = .turn other index) :
      before.manager.entities[index]? ≠ some ⟨.player own, true⟩ := by
    cases same
    rw [found]
    exact nofun
  obtain ⟨after, active, stored, lands⟩ := grounded
  rcases player_updateDoor found read stored with ⟨written, mainFound, rfl⟩ | kept
  · rcases (updateDoor_consistent (consistent.player read) self).2 lands with already | ⟨meets, above⟩
    · exact .inr ⟨⟨player, active, mainFound, already⟩, notOwn⟩
    · exact .inl (.door found written read meets above)
  · exact .inr ⟨⟨after, active, kept, lands⟩, notOwn⟩

theorem actStep_consistent {before after : World Rat} {act : Act} (consistent : PlayersConsistent before.manager)
    (taken : actStep before act = .ok after) : PlayersConsistent after.manager := by
  cases act with
  | turn keys index =>
    cases entityUpdated_of_ok taken with
    | @player self found =>
      refine playersConsistent_setData consistent fun other same => ?_
      cases same
      exact (updatePlayer_consistent (consistent index self true found) before.map keys before.frame).1
    | @door self player found read =>
      exact playersConsistent_setPlayer (playersConsistent_setData consistent fun _ same => by cases same)
        (updateDoor_consistent (consistent.player read) self).1
    | skipped idle => exact consistent
  | message doorId state =>
    cases taken
    exact playersConsistent_openDoor consistent doorId state

theorem actStep_grounded {before after : World Rat} {act : Act} (consistent : PlayersConsistent before.manager)
    (taken : actStep before act = .ok after) {index : Nat} (grounded : Grounded after.manager index) :
    GroundedBy before index act := by
  cases act with
  | turn keys turn =>
    cases entityUpdated_of_ok taken with
    | player found => exact playerTurn_grounded consistent found grounded
    | door found read => exact doorTurn_grounded consistent found read grounded
    | skipped idle =>
      refine .inr ⟨grounded, fun otherKeys self same found => ?_⟩
      cases same
      cases idle _ found
  | message doorId state =>
    cases taken
    obtain ⟨self, active, stored, lands⟩ := grounded
    refine .inr ⟨⟨self, active, ?_, lands⟩, fun _ _ own => by cases own⟩
    rcases openDoor_getElem? before.manager doorId state index with same | ⟨door, _, _, changed⟩
    · exact same.symm.trans stored
    · cases changed.symm.trans stored

def LandsIn (start : World Rat) (acts : List Act) (index : Nat) : Prop :=
  ∃ front act back before, acts = front ++ act :: back ∧ run actStep start front = .ok before ∧
    Landing before index act

theorem LandsIn.cons {start next : World Rat} {act : Act} {acts : List Act} {index : Nat}
    (taken : actStep start act = .ok next) (lands : LandsIn next acts index) : LandsIn start (act :: acts) index := by
  obtain ⟨front, landing, back, before, rfl, reached, landed⟩ := lands
  exact ⟨act :: front, landing, back, before, rfl, (run_cons_of_ok taken front).trans reached, landed⟩

theorem run_consistent {start final : World Rat} {acts : List Act} (consistent : PlayersConsistent start.manager)
    (reached : run actStep start acts = .ok final) : PlayersConsistent final.manager :=
  run_keeps (fun world => PlayersConsistent world.manager)
    (fun _ _ _ held taken => actStep_consistent held taken) consistent reached

theorem run_grounded {start final : World Rat} {acts : List Act} (consistent : PlayersConsistent start.manager)
    (reached : run actStep start acts = .ok final) {index : Nat} (grounded : Grounded final.manager index) :
    LandsIn start acts index ∨ Grounded start.manager index := by
  induction acts generalizing start with
  | nil =>
    cases reached
    exact .inr grounded
  | cons act rest ih =>
    obtain ⟨next, taken, remaining⟩ := run_cons_ok_iff.mp reached
    rcases ih (actStep_consistent consistent taken) remaining with lands | before
    · exact .inl (lands.cons taken)
    · rcases actStep_grounded consistent taken before with landed | ⟨already, _⟩
      · exact .inl ⟨[], act, rest, start, rfl, rfl, landed⟩
      · exact .inr already

/-- The player in the slot takes its turn on the ground with the jump key pressed. -/
def Jumps (world : World Rat) (keys : MoveKeys) (index : Nat) : Prop :=
  ∃ self, world.manager.entities[index]? = some ⟨.player self, true⟩ ∧ keys.space = true ∧ self.onGround = true

/-- Between its turn and a later moment on the ground the player has landed. -/
theorem lands_after_turn {start final : World Rat} {keys : MoveKeys} {index : Nat} {self : Player Rat}
    {acts : List Act} (consistent : PlayersConsistent start.manager)
    (found : start.manager.entities[index]? = some ⟨.player self, true⟩)
    (reached : run actStep start (.turn keys index :: acts) = .ok final) (grounded : Grounded final.manager index) :
    LandsIn start (.turn keys index :: acts) index := by
  obtain ⟨next, taken, remaining⟩ := run_cons_ok_iff.mp reached
  rcases run_grounded (actStep_consistent consistent taken) remaining grounded with lands | after
  · exact lands.cons taken
  · rcases actStep_grounded consistent taken after with landed | ⟨_, notOwn⟩
    · exact ⟨[], _, acts, start, rfl, rfl, landed⟩
    · exact absurd found (notOwn keys self rfl)

/-- What holds in a run of updates and messages: of every player at its end, of every
player that takes its turn, and between two jumps. -/
structure FlightHistory (start : World Rat) (acts : List Act) (final : World Rat) : Prop where
  reached : run actStep start acts = .ok final
  consistent : PlayersConsistent final.manager
  turns : ∀ front keys index back before self, acts = front ++ .turn keys index :: back →
    run actStep start front = .ok before → before.manager.entities[index]? = some ⟨.player self, true⟩ →
    OwnMove before.map keys self ∧ (Jumps before keys index → self.velocity.x = 0 ∧ self.velocity.y = 0)
  landings : ∀ front first index middle second back before later,
    acts = front ++ .turn first index :: (middle ++ .turn second index :: back) →
    run actStep start front = .ok before → Jumps before first index →
    run actStep before (.turn first index :: middle) = .ok later → Jumps later second index →
    LandsIn before (.turn first index :: middle) index

theorem flightHistory_of_run {start final : World Rat} {acts : List Act} (consistent : PlayersConsistent start.manager)
    (reached : run actStep start acts = .ok final) : FlightHistory start acts final where
  reached := reached
  consistent := run_consistent consistent reached
  turns := by
    intro front keys index back before self _ reachedFront found
    have holds : Consistent self := run_consistent consistent reachedFront index self true found
    refine ⟨holds.ownMove before.map keys, fun ⟨other, stored, _, ground⟩ => ⟨holds.still, ?_⟩⟩
    cases found.symm.trans stored
    exact holds.grounded ground
  landings := by
    rintro front first index middle second back before later _ reachedFront ⟨self, found, _, _⟩ reachedLater
      ⟨other, stored, _, ground⟩
    exact lands_after_turn (run_consistent consistent reachedFront) found reachedLater ⟨other, true, stored, ground⟩

theorem createPlayer_consistent (pos : Vector2 Rat) (id : Int) : Consistent (createPlayer pos id) :=
  ⟨rfl, FlightSpeed.zero, nofun⟩

theorem loaded_consistent {loads : Bytes → Bool} {file : Option Json} {loaded : LoadedMap Rat}
    (read : getMap loads file = .ok (some loaded)) : PlayersConsistent loaded.manager := by
  intro index self active found
  obtain ⟨pos, id, rfl⟩ := (getMap_fresh read _ (List.mem_of_getElem? found)).2 self rfl
  exact createPlayer_consistent pos id

/-- Velocity and ground flag of every player stay consistent over every run of ticks and
door messages of every level. -/
theorem level_flightHistory {loads : Bytes → Bool} {file : Option Json} {loaded : LoadedMap Rat} (frame : Int)
    (events : List WorldEvent) {world : World Rat} (read : getMap loads file = .ok (some loaded))
    (reached : run worldStep (loaded.world frame) events = .ok world) :
    FlightHistory (loaded.world frame) (events.flatMap (actsOf loaded.manager.count)) world :=
  have consistent : PlayersConsistent (loaded.world frame).manager := loaded_consistent read
  flightHistory_of_run consistent ((run_eq_acts (loaded.world frame) events).symm.trans reached)

/-- A player that lands on a wall and jumps, with a door beside it. -/
theorem jumpingPlayer_flightHistory :
    ∃ loaded : LoadedMap Rat, getMap (fun _ => true) (some (gridLevel [[0, 0], [1, 2], [0, 0], [4, 4]] 2)) =
        .ok (some loaded) ∧
      ∃ world, run worldStep (loaded.world 0)
          [.tick ⟨false, false, false, false⟩, .doorMessage 0 1, .tick ⟨true, false, true, true⟩] = .ok world ∧
        FlightHistory (loaded.world 0)
          ([.tick ⟨false, false, false, false⟩, .doorMessage 0 1, .tick ⟨true, false, true, true⟩].flatMap
            (actsOf loaded.manager.count)) world := by
  have checks : succeedsWith (fun answer : Option (LoadedMap Rat) => ∃ loaded ∈ answer,
      succeedsWith (fun _ => True) (run worldStep (loaded.world 0)
        [.tick ⟨false, false, false, false⟩, .doorMessage 0 1, .tick ⟨true, false, true, true⟩]) = true)
      (getMap (fun _ => true) (some (gridLevel [[0, 0], [1, 2], [0, 0], [4, 4]] 2))) = true := by
    decide +kernel
  obtain ⟨answer, read, loaded, rfl, played⟩ := exists_ok_of_succeedsWith checks
  obtain ⟨world, reached, -⟩ := exists_ok_of_succeedsWith played
  exact ⟨loaded, read, world, reached, level_flightHistory 0 _ read reached⟩

end Trigger.Engine
