import Trigger.Engine.Map
import Trigger.Engine.Menu
import Trigger.Terminal.Console

/-! The engine: a frame is `engine_update` and then `engine_draw`; messages of the
broker arrive between frames.
-/

set_option autoImplicit false

namespace Trigger.Engine
open Foundation Config Terminal

/-- The states of the main loop that occur. -/
inductive GameState where
  | exit
  | stop
  | run
  | pause
  deriving DecidableEq, Repr

structure Camera (K : Type) where
  offset : Vector2 K
  target : Vector2 K
  rotation : K
  zoom : K

/-- `session` holds the console with `temu_run`, `frame` the counter of the player
module, `menu` the variables of the menu module. -/
structure EngineContext (K : Type) where
  gameState : GameState
  camera : Camera K
  currentMap : Option LevelConfig
  textureManager : TextureManager
  entityManager : EntityManager K
  session : Session K
  screenWidth : Int
  screenHeight : Int
  frame : Int
  menu : Menu

/-- What a frame asks of the outside: keys, the emulator, the level files and the
texture files. -/
structure FrameInput (K : Type) where
  move : MoveKeys
  q : Bool
  p : Bool
  click : Click K
  console : ConsoleInput K
  output : ReadResult
  files : Bytes → Option Json
  loads : Bytes → Bool

inductive EngineEvent (K : Type) where
  | frame (input : FrameInput K)
  | doorMessage (doorId state : Int)
  | connectionFailed

variable {K : Type} [Scalar K]

/-! ## engine_update -/

def EngineContext.world (engine : EngineContext K) (map : LevelConfig) : World K :=
  ⟨map.layout, engine.entityManager, engine.frame, false⟩

def EngineContext.withWorld (engine : EngineContext K) (world : World K) : EngineContext K :=
  { engine with
    entityManager := world.manager
    frame := world.frame
    gameState := if world.ended then .stop else engine.gameState }

/-- `game_update`: every update of a player reads the current map. -/
def gameUpdate (engine : EngineContext K) (keys : MoveKeys) : Except Fault (EngineContext K) :=
  match engine.currentMap with
  | some map => (updateAllEntities keys (engine.world map)).map engine.withWorld
  | none => .error .nullPointer

/-- The keys of the running game: Q pauses, P opens the console. -/
def EngineContext.pressKeys (engine : EngineContext K) (q p : Bool) : EngineContext K :=
  { engine with
    -- Two separate tests: one frame can pause the game and open the console.
    gameState := if q then .pause else engine.gameState
    session := if p then { engine.session with temuRun := true } else engine.session }

def updateConsole (engine : EngineContext K) (input : FrameInput K) : Except Fault (EngineContext K) :=
  match engine.currentMap with
  | none => .error .nullPointer
  | some map => do
    let session ← updateInput engine.session map.name.val input.console
    return { engine with session := ← engineUpdateConsole session input.output }

def updateGame (engine : EngineContext K) (input : FrameInput K) : Except Fault (EngineContext K) := do
  let engine ← gameUpdate (engine.pressKeys input.q input.p) input.move
  -- The camera follows the player of the level.
  let player ← engine.entityManager.player
  return { engine with camera := { engine.camera with target := player.pos } }

def engineUpdate (engine : EngineContext K) (input : FrameInput K) : Except Fault (EngineContext K) :=
  if engine.session.temuRun then updateConsole engine input
  else if engine.gameState = .run then updateGame engine input
  else .ok engine

/-! ## engine_draw -/

def startLevel (engine : EngineContext K) (loaded : LoadedMap K) : Except Fault (EngineContext K) := do
  -- The camera starts at the player, whether or not the level has one.
  let player ← loaded.manager.player
  return { engine with
    gameState := .run
    currentMap := some loaded.config
    entityManager := loaded.manager
    textureManager := loaded.textures
    camera :=
      { offset := ⟨Scalar.ofRat (engine.screenWidth / 2), Scalar.ofRat (engine.screenHeight / 2)⟩
        target := player.pos
        rotation := ofInt 0
        zoom := Scalar.ofRat (3 / 2) } }

/-- The list of levels: a path that is set is loaded at once. -/
def drawLevelList (engine : EngineContext K) (input : FrameInput K) : Except Fault (EngineContext K) :=
  let engine := { engine with menu := engine.menu.pick input.click }
  let path := engine.menu.selectedLevelPath.val
  if path ≠ [] then do
    match ← getMap input.loads (input.files path) with
    | some loaded => startLevel engine loaded
    | none => return { engine with gameState := .stop, currentMap := none }
  else .ok engine

def drawButtons (engine : EngineContext K) (click : Click K) : EngineContext K :=
  let engine :=
    if checkButtonClick click engine.menu.startButton then { engine with menu := engine.menu.openList }
    else engine
  if checkButtonClick click engine.menu.exitButton then { engine with gameState := .exit } else engine

def drawStartMenu (engine : EngineContext K) (input : FrameInput K) : Except Fault (EngineContext K) :=
  if engine.menu.levelSelectActive then drawLevelList engine input
  else .ok (drawButtons engine input.click)

def drawPauseMenu (engine : EngineContext K) (click : Click K) : EngineContext K :=
  let engine :=
    if checkButtonClick click engine.menu.resumeButton then { engine with gameState := .run } else engine
  if checkButtonClick click engine.menu.exitButton then { engine with gameState := .stop } else engine

/-- `game_draw`: nothing changes, but every texture it selects must exist. -/
def gameDraw (engine : EngineContext K) : Except Fault (EngineContext K) := do
  match engine.currentMap with
  | some map =>
    let _ ← drawMap engine.textureManager map.layout
    let _ ← drawAllEntities engine.textureManager engine.entityManager
    return engine
  | none =>
    let _ ← drawAllEntities engine.textureManager engine.entityManager
    return engine

def drawRunning (engine : EngineContext K) : Except Fault (EngineContext K) :=
  if engine.session.temuRun then
    .ok { engine with session := { engine.session with console := drawConsole engine.session.console } }
  else gameDraw engine

def engineDraw (engine : EngineContext K) (input : FrameInput K) : Except Fault (EngineContext K) :=
  match engine.gameState with
  | .stop => drawStartMenu engine input
  | .run => drawRunning engine
  | .pause => .ok (drawPauseMenu engine input.click)
  | .exit => .ok engine

/-- The main loop ends in the exit state; a broker callback runs between two frames. -/
def engineStep (engine : EngineContext K) : EngineEvent K → Except Fault (EngineContext K)
  | .frame input =>
    if engine.gameState = .exit then .ok engine
    else do
      let engine ← engineUpdate engine input
      engineDraw engine input
  | .doorMessage doorId state =>
    .ok { engine with entityManager := openDoor engine.entityManager doorId state }
  | .connectionFailed => .ok { engine with gameState := .exit }

/-- The context after `engine_init`, with the menu `menu_init` set up. -/
def engineInit (menu : Menu) (width height : Int) : EngineContext K where
  gameState := .stop
  camera := ⟨vector2Zero, vector2Zero, ofInt 0, ofInt 0⟩
  currentMap := none
  textureManager := clearedTextures
  entityManager := createEntityManager 10
  session := ⟨freshConsole, true, 0, ofInt 0, false, []⟩
  screenWidth := width
  screenHeight := height
  frame := 0
  menu := menu

end Trigger.Engine
