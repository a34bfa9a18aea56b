import Trigger.Engine.Player
import Trigger.Foundation.Fallible

/-! Doors, the entity list, and one pass of the entity updates. -/

set_option autoImplicit false

namespace Trigger.Engine
open Foundation Config

structure Door (K : Type) where
  isOpen : Int
  id : Int
  textureId : Int
  pos : Vector2 K
  maxHeight : K
  deriving DecidableEq

/-- What an entity points to; it comes with the methods of its kind. -/
inductive EntityData (K : Type) where
  | player (self : Player K)
  | door (self : Door K)
  deriving DecidableEq

structure Entity (K : Type) where
  data : EntityData K
  active : Bool
  deriving DecidableEq

/-- `entities` are the slots in use; `player_idx` is not written on creation. -/
structure EntityManager (K : Type) where
  entities : List (Entity K)
  capacity : Nat
  playerIdx : Option Nat
  deriving DecidableEq

variable {K : Type} [Scalar K]

def EntityManager.count (manager : EntityManager K) : Nat := manager.entities.length

def createEntityManager (capacity : Nat) : EntityManager K := ⟨[], capacity, none⟩

/-- The allocations of `create_entity` succeed, so there are `capacity` slots. The bound of an
`int` on their number is in `Growth`. -/
def createEntity (manager : EntityManager K) (data : EntityData K) : Except Fault (EntityManager K) :=
  let capacity := if manager.count ≥ manager.capacity then manager.capacity * 2 else manager.capacity
  if manager.count < capacity then
    .ok { manager with entities := manager.entities ++ [⟨data, true⟩], capacity }
  else .error .outOfBounds

/-- `entities[player_idx]->data` read as a player. -/
def EntityManager.player (manager : EntityManager K) : Except Fault (Player K) :=
  match manager.playerIdx.bind fun index => manager.entities[index]? with
  | some ⟨.player self, _⟩ => .ok self
  | _ => .error .wildAccess

def EntityManager.setData (manager : EntityManager K) (index : Nat) (data : EntityData K) :
    EntityManager K :=
  { manager with entities := manager.entities.modify index fun entity => { entity with data } }

/-- Writes through the pointer to the player. -/
def EntityManager.setPlayer (manager : EntityManager K) (player : Player K) : EntityManager K :=
  match manager.playerIdx with
  | some index => manager.setData index (.player player)
  | none => manager

/-- Without the text of the number; `Loading.createDoor` has it, and its bound. -/
def createDoor (pos : Vector2 K) (id textureId : Int) : Door K where
  isOpen := 0
  id := id
  textureId := textureId
  pos := pos
  maxHeight := pos.y - ofInt 32

def Door.lift (door : Door K) : Door K :=
  if door.isOpen ≠ 0 ∧ door.maxHeight < door.pos.y then
    { door with pos := { door.pos with y := door.pos.y - Scalar.ofRat (1 / 4) } }
  else door

def playerRect (player : Player K) : Rectangle K := ⟨player.pos.x, player.pos.y, ofInt 32, ofInt 64⟩
def doorRect (door : Door K) : Rectangle K := ⟨door.pos.x, door.pos.y, ofInt 32, ofInt 32⟩

/-- The player moved out of the rectangle of a door along the shorter way. -/
def Player.pushOut (player : Player K) (playerRect doorRect : Rectangle K) : Player K :=
  let dxLeft := playerRect.x + playerRect.width - doorRect.x
  let dxRight := doorRect.x + doorRect.width - playerRect.x
  let dyTop := playerRect.y + playerRect.height - doorRect.y
  let dyBottom := doorRect.y + doorRect.height - playerRect.y
  -- The shorter way along each axis, then the shorter of the two.
  let minX := if dxLeft < dxRight then dxLeft else dxRight
  let minY := if dyTop < dyBottom then dyTop else dyBottom
  if minX < minY then
    if dxLeft < dxRight then
      { player with pos := { player.pos with x := doorRect.x - playerRect.width } }
    else { player with pos := { player.pos with x := doorRect.x + doorRect.width } }
  else if dyTop < dyBottom then
    { player with
      pos := { player.pos with y := doorRect.y - playerRect.height }
      onGround := true
      state := .idle
      velocity := { player.velocity with y := ofInt 0 } }
  else
    { player with
      pos := { player.pos with y := doorRect.y + doorRect.height }
      velocity := { player.velocity with y := ofInt 0 } }

def updateDoor (door : Door K) (player : Player K) : Door K × Player K :=
  -- An open door rises by a quarter pixel until it has left its cell.
  let door := door.lift
  if CheckCollisionRecs (playerRect player) (doorRect door) then
    (door, player.pushOut (playerRect player) (doorRect door))
  else (door, player)

/-- `find_door_by_id` and the write to `is_open` of `msgarrvd`. -/
def openDoor (manager : EntityManager K) (doorId state : Int) : EntityManager K :=
  let isDoor (entity : Entity K) : Bool :=
    match entity.data with
    | .door door => door.id = doorId
    | .player _ => false
  match manager.entities.findIdx? isDoor with
  | none => manager
  | some index =>
    { manager with entities := manager.entities.modify index fun entity =>
        match entity.data with
        | .door door => { entity with data := .door { door with isOpen := state } }
        | .player _ => entity }

/-! ## update_all_entities -/

/-- What the updates of a frame read and write; `ended` when a level end was reached. -/
structure World (K : Type) where
  map : MapLayout
  manager : EntityManager K
  frame : Int
  ended : Bool
  deriving DecidableEq

def updateEntity (keys : MoveKeys) (world : World K) (index : Nat) : Except Fault (World K) :=
  match world.manager.entities[index]? with
  | some ⟨.player self, true⟩ =>
    let tick := updatePlayer world.map keys world.frame self
    .ok { world with
      manager := world.manager.setData index (.player tick.player)
      frame := tick.frame
      ended := world.ended || tick.ended }
  | some ⟨.door self, true⟩ => do
    let player ← world.manager.player
    let (door, player) := updateDoor self player
    return { world with manager := (world.manager.setData index (.door door)).setPlayer player }
  -- An inactive entity is passed over.
  | _ => .ok world

def updateAllEntities (keys : MoveKeys) (world : World K) : Except Fault (World K) :=
  (List.range world.manager.count).foldlM (updateEntity keys) world

/-- What happens to a level that is played: a tick with the keys that are down, and
messages for its doors. -/
inductive WorldEvent where
  | tick (keys : MoveKeys)
  | doorMessage (doorId state : Int)
  deriving DecidableEq, Repr

def worldStep (world : World K) : WorldEvent → Except Fault (World K)
  | .tick keys => updateAllEntities keys world
  | .doorMessage doorId state => .ok { world with manager := openDoor world.manager doorId state }

end Trigger.Engine
