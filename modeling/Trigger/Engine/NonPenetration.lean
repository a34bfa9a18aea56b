import Trigger.Engine.Collision
import Trigger.Engine.Roster

/-! Where the player can be after a tick.

The updates of a tick run in the order of the entity list. The player heeds the
tiles only, and a door heeds the player only, so each of them can undo what the
others saw to; the conditions below say when none does.
-/

set_option autoImplicit false

namespace Trigger.Engine
open Foundation Config

def MeetsDoor (pos : Vector2 Rat) (door : Door Rat) : Prop :=
  CheckCollisionRecs ⟨pos.x, pos.y, ofInt 32, ofInt 64⟩ (doorRect door)

instance (pos : Vector2 Rat) (door : Door Rat) : Decidable (MeetsDoor pos door) :=
  inferInstanceAs (Decidable (CheckCollisionRecs _ _))

inductive Side where
  | left
  | right
  | above
  | below
  deriving DecidableEq, Repr

/-- How far a player at this place has to move to leave the door by this side. -/
def Door.depth (door : Door Rat) (pos : Vector2 Rat) : Side → Rat
  | .left => pos.x + 32 - door.pos.x
  | .right => door.pos.x + 32 - pos.x
  | .above => pos.y + 64 - door.pos.y
  | .below => door.pos.y + 32 - pos.y

/-- The place of the player when it has left the door by this side. -/
def Door.beside (door : Door Rat) (pos : Vector2 Rat) : Side → Vector2 Rat
  | .left => { pos with x := door.pos.x - 32 }
  | .right => { pos with x := door.pos.x + 32 }
  | .above => { pos with y := door.pos.y - 64 }
  | .below => { pos with y := door.pos.y + 32 }

def Door.shallower (door : Door Rat) (pos : Vector2 Rat) (first second : Side) : Side :=
  if door.depth pos first < door.depth pos second then first else second

/-- The side by which a player at this place leaves the door soonest. -/
def Door.nearest (door : Door Rat) (pos : Vector2 Rat) : Side :=
  door.shallower pos (door.shallower pos .left .right) (door.shallower pos .above .below)

/-- The nearest place beside the door. -/
def Door.exit (door : Door Rat) (pos : Vector2 Rat) : Vector2 Rat := door.beside pos (door.nearest pos)

theorem shallower_le (door : Door Rat) (pos : Vector2 Rat) (first second : Side) :
    door.depth pos (door.shallower pos first second) ≤ door.depth pos first ∧
      door.depth pos (door.shallower pos first second) ≤ door.depth pos second := by
  unfold Door.shallower
  split
  · rename_i less
    exact ⟨le_refl _, less.le⟩
  · rename_i more
    exact ⟨not_lt.mp more, le_refl _⟩

theorem nearest_le (door : Door Rat) (pos : Vector2 Rat) (side : Side) :
    door.depth pos (door.nearest pos) ≤ door.depth pos side := by
  obtain ⟨aside, upright⟩ := shallower_le door pos (door.shallower pos .left .right) (door.shallower pos .above .below)
  cases side with
  | left => exact aside.trans (shallower_le door pos .left .right).1
  | right => exact aside.trans (shallower_le door pos .left .right).2
  | above => exact upright.trans (shallower_le door pos .above .below).1
  | below => exact upright.trans (shallower_le door pos .above .below).2

theorem beside_apart (door : Door Rat) (pos : Vector2 Rat) (side : Side) : ¬ MeetsDoor (door.beside pos side) door := by
  rintro ⟨⟨left, right⟩, above, below⟩
  cases side <;> simp only [Door.beside, doorRect, ofInt_rat, Int.cast_ofNat] at left right above below
  · linarith
  · linarith
  · linarith
  · linarith

def Player.leaveBy (player : Player Rat) (door : Door Rat) : Side → Player Rat
  | .left => { player with pos := door.beside player.pos .left }
  | .right => { player with pos := door.beside player.pos .right }
  | .above => { player with
      pos := door.beside player.pos .above
      onGround := true
      state := .idle
      velocity := { player.velocity with y := 0 } }
  | .below => { player with
      pos := door.beside player.pos .below
      velocity := { player.velocity with y := 0 } }

theorem leaveBy_pos (player : Player Rat) (door : Door Rat) (side : Side) :
    (player.leaveBy door side).pos = door.beside player.pos side := by
  cases side <;> rfl

theorem pushOut_eq (player : Player Rat) (door : Door Rat) :
    player.pushOut (playerRect player) (doorRect door) = player.leaveBy door (door.nearest player.pos) := by
  simp only [Door.nearest, Door.shallower, apply_ite (player.leaveBy door), apply_ite (door.depth player.pos)]
  rfl

theorem leaveBy_settled {player : Player Rat} (settled : Settled player) (door : Door Rat) (side : Side) :
    Settled (player.leaveBy door side) := by
  obtain ⟨still, grounded, rising, falling⟩ := settled
  cases side with
  | left => exact ⟨still, grounded, rising, falling⟩
  | right => exact ⟨still, grounded, rising, falling⟩
  | above => exact ⟨still, fun _ => rfl, by norm_num [Player.leaveBy], by norm_num [Player.leaveBy]⟩
  | below => exact ⟨still, fun _ => rfl, by norm_num [Player.leaveBy], by norm_num [Player.leaveBy]⟩

def ApartBefore (manager : EntityManager Rat) (count : Nat) (pos : Vector2 Rat) : Prop :=
  ∀ index < count, ∀ door ∈ manager.doorAt index, ¬ MeetsDoor pos door

instance (manager : EntityManager Rat) (count : Nat) (pos : Vector2 Rat) :
    Decidable (ApartBefore manager count pos) :=
  inferInstanceAs (Decidable (∀ index < count, _))

/-- The player overlaps no solid cell and no door. -/
def NonPenetrating (world : World Rat) : Prop :=
  match world.manager.player with
  | .ok player => SolidFree world.map player.pos ∧ ApartBefore world.manager world.manager.count player.pos
  | .error _ => False

instance (world : World Rat) : Decidable (NonPenetrating world) :=
  match read : world.manager.player with
  | .ok player => decidable_of_iff
      (SolidFree world.map player.pos ∧ ApartBefore world.manager world.manager.count player.pos)
      (by simp [NonPenetrating, read])
  | .error _ => isFalse (by simp [NonPenetrating, read])

/-! ## Conditions on a run -/

/-- Before the level ends, the player makes a clean move, no door listed before it is at
the place where the solid cells let the move end, and the nearest place beside a door
that meets the player is free of solid cells and of the doors listed before that door. -/
def CleanUpdate (keys : MoveKeys) (world : World Rat) (index : Nat) : Prop :=
  world.ended = false →
  match world.manager.entities[index]? with
  | some ⟨.player self, _⟩ =>
    world.manager.playerIdx = some index →
      CleanMove world.map keys self ∧ ApartBefore world.manager index (self.land world.map keys)
  | some ⟨.door self, _⟩ =>
    ∀ player ∈ world.manager.player.toOption, MeetsDoor player.pos self.lift →
      SolidFree world.map (self.lift.exit player.pos) ∧ ApartBefore world.manager index (self.lift.exit player.pos)
  | none => True

instance (keys : MoveKeys) (world : World Rat) (index : Nat) : Decidable (CleanUpdate keys world index) :=
  match found : world.manager.entities[index]? with
  | some ⟨.player self, _⟩ => decidable_of_iff
      (world.ended = false → world.manager.playerIdx = some index →
        CleanMove world.map keys self ∧ ApartBefore world.manager index (self.land world.map keys))
      (by simp [CleanUpdate, found])
  | some ⟨.door self, _⟩ => decidable_of_iff
      (world.ended = false → ∀ player ∈ world.manager.player.toOption, MeetsDoor player.pos self.lift →
        SolidFree world.map (self.lift.exit player.pos) ∧ ApartBefore world.manager index (self.lift.exit player.pos))
      (by simp [CleanUpdate, found])
  | none => isTrue (by simp [CleanUpdate, found])

def CleanEvent (world : World Rat) : WorldEvent → Prop
  | .tick keys => Along (updateEntity keys) (CleanUpdate keys) world (List.range world.manager.count)
  | .doorMessage _ _ => True

instance (world : World Rat) (event : WorldEvent) : Decidable (CleanEvent world event) :=
  match event with
  | .tick keys => decidableAlong (updateEntity keys) (CleanUpdate keys) world (List.range world.manager.count)
  | .doorMessage _ _ => isTrue trivial

/-- What holds of the player when the first `count` entities of a tick were updated. -/
def Playing (world : World Rat) (count : Nat) : Prop :=
  ∃ player, world.manager.player = .ok player ∧ Settled player ∧ SolidFree world.map player.pos ∧
    ApartBefore world.manager count player.pos

/-- The invariant within a tick of `total` entities. -/
structure HeldUpTo (total count : Nat) (world : World Rat) : Prop where
  total : world.manager.count = total
  live : ∀ entity ∈ world.manager.entities, entity.active = true
  playing : world.ended = false → Playing world count

theorem apartBefore_succ {manager : EntityManager Rat} {count : Nat} {pos : Vector2 Rat}
    (before : ApartBefore manager count pos) (here : ∀ door ∈ manager.doorAt count, ¬ MeetsDoor pos door) :
    ApartBefore manager (count + 1) pos := by
  intro index bound door found
  rcases Nat.lt_succ_iff_lt_or_eq.mp bound with earlier | rfl
  · exact before index earlier door found
  · exact here door found

theorem ApartBefore.congr {before after : EntityManager Rat} {count : Nat} {pos : Vector2 Rat}
    (apart : ApartBefore before count pos) (same : ∀ index < count, after.doorAt index = before.doorAt index) :
    ApartBefore after count pos :=
  fun index bound door found => apart index bound door (same index bound ▸ found)

theorem updateDoor_of_meets {door : Door Rat} {player : Player Rat} (meets : MeetsDoor player.pos door.lift) :
    updateDoor door player = (door.lift, player.leaveBy door.lift (door.lift.nearest player.pos)) := by
  rw [← pushOut_eq]
  exact if_pos meets

theorem updateDoor_of_apart {door : Door Rat} {player : Player Rat} (apart : ¬ MeetsDoor player.pos door.lift) :
    updateDoor door player = (door.lift, player) :=
  if_neg apart

/-- The update of a door leaves the player settled and apart from it, either in its place
or at the nearest place beside the door. -/
theorem updateDoor_spec (door : Door Rat) {player : Player Rat} (settled : Settled player) :
    Settled (updateDoor door player).2 ∧ ¬ MeetsDoor (updateDoor door player).2.pos (updateDoor door player).1 ∧
      (updateDoor door player).2.pos =
        if MeetsDoor player.pos door.lift then door.lift.exit player.pos else player.pos := by
  by_cases meets : MeetsDoor player.pos door.lift
  · rw [updateDoor_of_meets meets, if_pos meets, leaveBy_pos]
    exact ⟨leaveBy_settled settled _ _, beside_apart _ _ _, rfl⟩
  · rw [updateDoor_of_apart meets, if_neg meets]
    exact ⟨settled, meets, rfl⟩

def Side.upright : Side → Bool
  | .left | .right => false
  | .above | .below => true

/-- A push by this side, the one of the smallest of the four depths: one coordinate
changes, by this depth; the player stops when the side is up or down, and stands on the
door when it is up. -/
structure Pushed (door : Door Rat) (before after : Player Rat) (side : Side) : Prop where
  smallest : ∀ other, door.depth before.pos side ≤ door.depth before.pos other
  deep : 0 < door.depth before.pos side
  shift : if side.upright then after.pos.x = before.pos.x ∧ |after.pos.y - before.pos.y| = door.depth before.pos side
    else after.pos.y = before.pos.y ∧ |after.pos.x - before.pos.x| = door.depth before.pos side
  sideways : after.velocity.x = before.velocity.x
  stops : after.velocity.y = if side.upright then 0 else before.velocity.y
  stands : after.onGround = if side = .above then true else before.onGround

theorem MeetsDoor.depth_pos {pos : Vector2 Rat} {door : Door Rat} (meets : MeetsDoor pos door) (side : Side) :
    0 < door.depth pos side := by
  obtain ⟨⟨left, right⟩, above, below⟩ := meets
  simp only [doorRect, ofInt_rat, Int.cast_ofNat] at left right above below
  cases side <;> simp only [Door.depth] <;> linarith

theorem leaveBy_pushed {player : Player Rat} {door : Door Rat} (meets : MeetsDoor player.pos door) {side : Side}
    (smallest : ∀ other, door.depth player.pos side ≤ door.depth player.pos other) :
    Pushed door player (player.leaveBy door side) side := by
  have deep := meets.depth_pos side
  refine ⟨smallest, deep, ?_, ?_, ?_, ?_⟩
  · cases side with
    | left =>
      have shift : door.pos.x - 32 - player.pos.x = -door.depth player.pos .left := by simp only [Door.depth]; ring
      exact ⟨rfl, (congrArg abs shift).trans (by rw [abs_neg, abs_of_pos deep])⟩
    | right =>
      have shift : door.pos.x + 32 - player.pos.x = door.depth player.pos .right := by simp only [Door.depth]
      exact ⟨rfl, (congrArg abs shift).trans (abs_of_pos deep)⟩
    | above =>
      have shift : door.pos.y - 64 - player.pos.y = -door.depth player.pos .above := by simp only [Door.depth]; ring
      exact ⟨rfl, (congrArg abs shift).trans (by rw [abs_neg, abs_of_pos deep])⟩
    | below =>
      have shift : door.pos.y + 32 - player.pos.y = door.depth player.pos .below := by simp only [Door.depth]
      exact ⟨rfl, (congrArg abs shift).trans (abs_of_pos deep)⟩
  · cases side <;> rfl
  · cases side <;> rfl
  · cases side <;> rfl

/-- After the update of a door the player does not meet it. A player clear of the moved
door stays as it is, any other is pushed out by the nearest side. -/
theorem updateDoor_pushes (door : Door Rat) (player : Player Rat) :
    (updateDoor door player).1 = door.lift ∧
      ¬ MeetsDoor (updateDoor door player).2.pos door.lift ∧
      (¬ MeetsDoor player.pos door.lift → (updateDoor door player).2 = player) ∧
      (MeetsDoor player.pos door.lift → ∃ side, Pushed door.lift player (updateDoor door player).2 side) := by
  by_cases meets : MeetsDoor player.pos door.lift
  · rw [updateDoor_of_meets meets]
    refine ⟨rfl, ?_, fun apart => absurd meets apart, fun _ => ?_⟩
    · rw [leaveBy_pos]
      exact beside_apart _ _ _
    · exact ⟨_, leaveBy_pushed meets (nearest_le door.lift player.pos)⟩
  · rw [updateDoor_of_apart meets]
    exact ⟨rfl, meets, fun _ => rfl, fun met => absurd met meets⟩

theorem player_held {keys : MoveKeys} {total index : Nat} {world : World Rat} {self : Player Rat}
    (held : HeldUpTo total index world) (clean : CleanUpdate keys world index)
    (found : world.manager.entities[index]? = some ⟨.player self, true⟩) :
    HeldUpTo total (index + 1) { world with
      manager := world.manager.setData index (.player (updatePlayer world.map keys world.frame self).player)
      frame := (updatePlayer world.map keys world.frame self).frame
      ended := world.ended || (updatePlayer world.map keys world.frame self).ended } := by
  refine ⟨count_setData.trans held.total, active_setData held.live, fun going => ?_⟩
  obtain ⟨running, reached⟩ := Bool.or_eq_false_iff.mp going
  obtain ⟨player, read, settled, free, apart⟩ := held.playing running
  have same (other : Nat) := doorAt_setData_player
    (updatePlayer world.map keys world.frame self).player found other
  have here : world.manager.doorAt index = none := by simp [EntityManager.doorAt, found]
  by_cases main : world.manager.playerIdx = some index
  · have self_eq : self = player := by simpa [EntityManager.player, main, found] using read
    subst self_eq
    have conditions := clean running
    simp only [found] at conditions
    obtain ⟨move, away⟩ := conditions main
    obtain ⟨settles, place⟩ := updatePlayer_clean settled free move reached
    refine ⟨_, setData_player main found, settles, place ▸ land_free settled free, apartBefore_succ ?_ ?_⟩
    · rw [place]
      exact away.congr fun other _ => same other
    · simp [same, here]
  · -- Another player of the map moves; the player of the level stays where it is.
    refine ⟨player, setData_player_other _ main read, settled, free, apartBefore_succ ?_ ?_⟩
    · exact apart.congr fun other _ => same other
    · simp [same, here]

theorem door_held {keys : MoveKeys} {total index : Nat} {world : World Rat} {self : Door Rat} {player : Player Rat}
    (held : HeldUpTo total index world) (clean : CleanUpdate keys world index)
    (found : world.manager.entities[index]? = some ⟨.door self, true⟩) (read : world.manager.player = .ok player) :
    HeldUpTo total (index + 1) { world with
      manager := (world.manager.setData index (.door (updateDoor self player).1)).setPlayer
        (updateDoor self player).2 } := by
  refine ⟨count_setPlayer.trans (count_setData.trans held.total), active_setPlayer (active_setData held.live),
    fun running => ?_⟩
  obtain ⟨same, read', settled, free, apart⟩ := held.playing running
  cases read.symm.trans read'
  have middle := setData_player_other (.door (updateDoor self player).1) (playerIdx_ne_of_door found read) read
  have doors := doorAt_updateDoor found read (updateDoor self player).1 (updateDoor self player).2
  obtain ⟨settles, away, place⟩ := updateDoor_spec self settled
  have conditions := clean running
  simp only [found, read, Except.toOption, Option.mem_some_iff, forall_eq'] at conditions
  have kept : SolidFree world.map (updateDoor self player).2.pos ∧
      ApartBefore world.manager index (updateDoor self player).2.pos := by
    rw [place]
    split
    · rename_i meets
      exact conditions meets
    · exact ⟨free, apart⟩
  refine ⟨_, setPlayer_player middle, settles, kept.1, apartBefore_succ ?_ ?_⟩
  · exact kept.2.congr fun q bound => by rw [doors, if_neg (Nat.ne_of_gt bound)]
  · intro door present
    rw [doors, if_pos rfl] at present
    cases present
    exact away

theorem skipped_held {total index : Nat} {world : World Rat} (held : HeldUpTo total index world)
    (idle : ∀ entity, world.manager.entities[index]? = some entity → entity.active = false) :
    HeldUpTo total (index + 1) world := by
  refine ⟨held.total, held.live, fun running => ?_⟩
  obtain ⟨player, read, settled, free, apart⟩ := held.playing running
  -- Every entity is active, so none is stored here.
  have none : world.manager.entities[index]? = none := by
    cases stored : world.manager.entities[index]? with
    | none => rfl
    | some entity =>
      have live := held.live entity (List.mem_of_getElem? stored)
      rw [idle entity stored] at live
      cases live
  exact ⟨player, read, settled, free, apartBefore_succ apart (by simp [EntityManager.doorAt, none])⟩

theorem updateEntity_held {keys : MoveKeys} {total index : Nat} {world next : World Rat}
    (held : HeldUpTo total index world) (clean : CleanUpdate keys world index)
    (updated : EntityUpdated keys world index next) : HeldUpTo total (index + 1) next := by
  cases updated with
  | player found => exact player_held held clean found
  | door found read => exact door_held held clean found read
  | skipped idle => exact skipped_held held idle

/-- The invariant between two events. -/
structure Held (world : World Rat) : Prop where
  holds : HoldsPlayer world.manager
  upTo : HeldUpTo world.manager.count world.manager.count world

theorem tick_held {keys : MoveKeys} {world : World Rat} (held : Held world) (clean : CleanEvent world (.tick keys)) :
    ∃ next, updateAllEntities keys world = .ok next ∧ Held next := by
  obtain ⟨next, updated, holds⟩ := updateAllEntities_holds keys world held.holds
  have reached : run (updateEntity keys) world (List.range world.manager.count) = .ok next :=
    (foldlM_eq_run _ _).symm.trans updated
  -- A tick starts with no entity updated.
  have initial : HeldUpTo world.manager.count 0 world :=
    ⟨rfl, held.upTo.live, fun running => by
      obtain ⟨player, read, settled, free, _⟩ := held.upTo.playing running
      exact ⟨player, read, settled, free, nofun⟩⟩
  have upTo := run_range_invariant (fun index state next held clean taken =>
    updateEntity_held held clean (entityUpdated_of_ok taken)) initial clean reached
  exact ⟨next, updated, holds, upTo.total.symm ▸ upTo⟩

theorem doorMessage_held {world : World Rat} (held : Held world) (doorId state : Int) :
    Held { world with manager := openDoor world.manager doorId state } := by
  refine ⟨(openDoor_sameKinds ..).holds held.holds, rfl, active_openDoor held.upTo.live, fun running => ?_⟩
  obtain ⟨player, read, settled, free, apart⟩ := held.upTo.playing running
  refine ⟨player, player_openDoor read, settled, free, fun index bound door found meets => ?_⟩
  obtain ⟨before, stored, pos⟩ := doorAt_openDoor found
  rw [count_openDoor] at bound
  apply apart index bound before stored
  rwa [MeetsDoor, doorRect, pos] at meets

theorem worldStep_held {world : World Rat} {event : WorldEvent} (held : Held world) (clean : CleanEvent world event) :
    ∃ next, worldStep world event = .ok next ∧ Held next := by
  cases event with
  | tick keys => exact tick_held held clean
  | doorMessage doorId state => exact ⟨_, rfl, doorMessage_held held doorId state⟩

theorem nonPenetrating_of_held {world : World Rat} (held : Held world) (running : world.ended = false) :
    NonPenetrating world := by
  obtain ⟨player, read, _, free, apart⟩ := held.upTo.playing running
  rw [NonPenetrating, read]
  exact ⟨free, apart⟩

theorem createPlayer_settled (pos : Vector2 Rat) (id : Int) : Settled (createPlayer pos id) :=
  ⟨rfl, nofun, (by norm_num : (-6 : Rat) ≤ 0), (by norm_num : (0 : Rat) ≤ 11 / 5)⟩

theorem loaded_held {loads : Bytes → Bool} {file : Option Json} {loaded : LoadedMap Rat} (frame : Int)
    (read : getMap loads file = .ok (some loaded)) (clear : NonPenetrating (loaded.world frame)) :
    Held (loaded.world frame) := by
  have fresh := getMap_fresh read
  cases found : loaded.manager.player with
  | error fault => simp [NonPenetrating, LoadedMap.world, found] at clear
  | ok player =>
    obtain ⟨free, apart⟩ : SolidFree loaded.config.layout player.pos ∧
        ApartBefore loaded.manager loaded.manager.count player.pos := by
      simpa [NonPenetrating, LoadedMap.world, found] using clear
    obtain ⟨index, active, written, stored⟩ := player_ok_iff.mp found
    obtain ⟨pos, id, rfl⟩ := (fresh _ (List.mem_of_getElem? stored)).2 player rfl
    exact ⟨holds_of_player_ok found, rfl, fun entity member => (fresh entity member).1,
      fun _ => ⟨_, found, createPlayer_settled pos id, free, apart⟩⟩

/-- Non-penetration: a level whose player starts clear of solid cells and doors is played
without a fault, and after clean events the player is clear of them until the level ends. -/
theorem clean_run_nonPenetrating {loads : Bytes → Bool} {file : Option Json} {loaded : LoadedMap Rat} (frame : Int)
    (events : List WorldEvent) (read : getMap loads file = .ok (some loaded))
    (clear : NonPenetrating (loaded.world frame)) (along : Along worldStep CleanEvent (loaded.world frame) events) :
    ∃ world, run worldStep (loaded.world frame) events = .ok world ∧
      (world.ended = false → NonPenetrating world) := by
  obtain ⟨world, reached, held⟩ := run_succeeds (fun world event held clean => worldStep_held held clean)
    (loaded_held frame read clear) along
  exact ⟨world, reached, nonPenetrating_of_held held⟩

/-- A level file with these cells; 1 is the player, 2 a door and 4 a wall. -/
def gridLevel (rows : List (List Int)) (cols : Int) : Json :=
  let object (id : Int) (entity : String) : Json := .object [(text "id", .number id), (text "name", .string []),
    (text "texture", .string []), (text "entity", .string (text entity))]
  .object [(text "objects", .array [object 0 "none", object 1 "player", object 2 "door"]),
    (text "map", .object [(text "size", .object [(text "rows", .number rows.length), (text "cols", .number cols)]),
      (text "data", .array (rows.map fun row => .array (row.map .number)))])]

/-- The player runs into a door listed after it and is set back in the same tick. -/
theorem doorAhead_nonPenetrating :
    ∃ loaded : LoadedMap Rat, getMap (fun _ => true)
        (some (gridLevel [[0, 0], [1, 0], [0, 2], [4, 4]] 2)) = .ok (some loaded) ∧
      ∃ world, run worldStep (loaded.world 0)
          [.tick ⟨true, false, true, false⟩, .doorMessage 0 1, .tick ⟨false, false, false, true⟩] = .ok world ∧
        (world.ended = false → NonPenetrating world) := by
  have checks : succeedsWith (fun answer : Option (LoadedMap Rat) => ∃ loaded ∈ answer,
      NonPenetrating (loaded.world 0) ∧ Along worldStep CleanEvent (loaded.world 0)
        [.tick ⟨true, false, true, false⟩, .doorMessage 0 1, .tick ⟨false, false, false, true⟩])
      (getMap (fun _ => true) (some (gridLevel [[0, 0], [1, 0], [0, 2], [4, 4]] 2))) = true := by
    decide +kernel
  obtain ⟨answer, read, loaded, rfl, clear, along⟩ := exists_ok_of_succeedsWith checks
  exact ⟨loaded, read, clean_run_nonPenetrating 0 _ read clear along⟩

/-- The player runs into a door listed before it, and the tick ends inside the door. -/
theorem doorBefore_penetrates :
    ∃ loaded : LoadedMap Rat, getMap (fun _ => true)
        (some (gridLevel [[0, 0], [0, 0], [2, 1], [0, 0], [4, 4]] 2)) = .ok (some loaded) ∧
      NonPenetrating (loaded.world 0) ∧
      ∃ world, run worldStep (loaded.world 0) [.tick ⟨false, true, false, false⟩] = .ok world ∧
        world.ended = false ∧ ¬ NonPenetrating world := by
  have checks : succeedsWith (fun answer : Option (LoadedMap Rat) => ∃ loaded ∈ answer,
      NonPenetrating (loaded.world 0) ∧ succeedsWith (fun world => world.ended = false ∧ ¬ NonPenetrating world)
        (run worldStep (loaded.world 0) [.tick ⟨false, true, false, false⟩]) = true)
      (getMap (fun _ => true) (some (gridLevel [[0, 0], [0, 0], [2, 1], [0, 0], [4, 4]] 2))) = true := by
    decide +kernel
  obtain ⟨answer, read, loaded, rfl, clear, penetrates⟩ := exists_ok_of_succeedsWith checks
  exact ⟨loaded, read, clear, exists_ok_of_succeedsWith penetrates⟩

end Trigger.Engine
