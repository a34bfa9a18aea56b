import Trigger.Engine.Entities
import Mathlib.Logic.Function.Basic

/-! `get_map`: a level file turned into a map, its entities and its textures. -/

set_option autoImplicit false

namespace Trigger.Engine
open Foundation Config

inductive Texture where
  | empty
  | file (path : Bytes)
  | placeholder
  deriving DecidableEq

def maxTextures : Nat := 256

structure TextureManager where
  texture : Fin maxTextures → Texture
  loaded : Fin maxTextures → Bool
  maxId : Int

def clearedTextures : TextureManager := ⟨fun _ => .empty, fun _ => false, 0⟩

def textureIndex (id : Int) : Except Fault (Fin maxTextures) :=
  if range : 0 ≤ id ∧ id.toNat < maxTextures then .ok ⟨id.toNat, range.2⟩ else .error .outOfBounds

/-- `config->objects[id]`, the object at a position given by an id. -/
def objectAt (objects : List ObjectConfig) (id : Int) : Except Fault ObjectConfig :=
  if 0 ≤ id then
    match objects[id.toNat]? with
    | some object => .ok object
    | none => .error .outOfBounds
  else .error .outOfBounds

/-- `loads` tells which files `LoadTexture` can read. -/
def initTexture (loads : Bytes → Bool) (objects : List ObjectConfig) (manager : TextureManager)
    (object : ObjectConfig) : Except Fault TextureManager := do
  let id := object.id
  let maxId := if id > manager.maxId then id else manager.maxId
  -- The path is looked up by position, with the id for an index.
  let named ← objectAt objects id
  let slot ← textureIndex id
  let path := named.texture.val
  if path = [] then return { manager with loaded := Function.update manager.loaded slot false, maxId }
  else if loads path then
    return ⟨Function.update manager.texture slot (.file path), Function.update manager.loaded slot true, maxId⟩
  else
    return ⟨Function.update manager.texture slot .placeholder, Function.update manager.loaded slot false, maxId⟩

def initTextureManager (loads : Bytes → Bool) (objects : List ObjectConfig) : Except Fault TextureManager :=
  objects.foldlM (initTexture loads objects) clearedTextures

variable {K : Type} [Scalar K]

structure Spawning (K : Type) where
  manager : EntityManager K
  doorId : Int

/-- The products have no bound here; `Loading.cellPos` has the one of an `int`. -/
def cellPos (i j : Nat) : Vector2 K := ⟨ofInt (j * 32), ofInt (i * 32)⟩

/-- The body of the scan for one cell. -/
def spawnCell (objects : List ObjectConfig) (spawning : Spawning K) (cell : Nat × Nat × Int) :
    Except Fault (Spawning K) :=
  let (i, j, tileId) := cell
  match spawnOf objects tileId with
  | some .player => do
    -- The index is taken before the entity is created, so it is the one of the new slot.
    let manager := { spawning.manager with playerIdx := some spawning.manager.count }
    return { spawning with manager := ← createEntity manager (.player (createPlayer (cellPos i j) tileId)) }
  | some .door => do
    let door := createDoor (cellPos i j) spawning.doorId tileId
    return ⟨← createEntity spawning.manager (.door door), spawning.doorId + 1⟩
  | none => .ok spawning

/-- The cells of entities are cleared, each after its own visit. -/
def clearSpawned (objects : List ObjectConfig) (layout : MapLayout) : MapLayout :=
  layout.map fun tileId => if (spawnOf objects tileId).isSome then 0 else tileId

structure LoadedMap (K : Type) where
  config : LevelConfig
  manager : EntityManager K
  textures : TextureManager

/-- What the updates of the level start from. -/
def LoadedMap.world (loaded : LoadedMap K) (frame : Int) : World K :=
  ⟨loaded.config.layout, loaded.manager, frame, false⟩

def spawnEntities (config : LevelConfig) : Except Fault (Spawning K) :=
  config.layout.cells.foldlM (spawnCell config.objects) ⟨createEntityManager 10, 0⟩

/-- `get_map`; none when the file cannot be loaded. -/
def getMap (loads : Bytes → Bool) (file : Option Json) : Except Fault (Option (LoadedMap K)) := do
  match ← loadLevelFile file with
  | none => return none
  | some loaded =>
    let config ← loaded.read
    let spawning ← spawnEntities config
    let textures ← initTextureManager loads config.objects
    return some ⟨{ config with layout := clearSpawned config.objects config.layout }, spawning.manager, textures⟩

/-- A texture the drawing of the level selects by a number. -/
def textureAt (textures : TextureManager) (id : Int) : Except Fault Texture :=
  (textureIndex id).map textures.texture

def drawMap (textures : TextureManager) (map : MapLayout) : Except Fault (List Texture) :=
  map.cells.mapM fun cell => textureAt textures cell.2.2

def drawEntity (textures : TextureManager) (entity : Entity K) : Except Fault Texture :=
  match entity.data with
  | .player player => textureAt textures player.id
  | .door door => textureAt textures door.textureId

def drawAllEntities (textures : TextureManager) (manager : EntityManager K) : Except Fault (List Texture) :=
  (manager.entities.filter Entity.active).mapM (drawEntity textures)

end Trigger.Engine
