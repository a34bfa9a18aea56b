import Trigger.Engine.Context

/-! What a frame can do to the engine: one case for each way through
`engine_update` and through `engine_draw`.
-/

set_option autoImplicit false

namespace Trigger.Engine
open Foundation Config Terminal

variable {K : Type} [Scalar K]

/-! ## engine_update -/

inductive Updated (engine : EngineContext K) (input : FrameInput K) : EngineContext K → Prop where
  | console {map : LevelConfig} {session : Session K} : engine.session.temuRun = true →
      engine.currentMap = some map → Updated engine input { engine with session }
  | game {map : LevelConfig} {world : World K} {player : Player K} {camera : Camera K} :
      engine.session.temuRun = false → engine.gameState = .run → engine.currentMap = some map →
      updateAllEntities input.move (engine.world map) = .ok world → world.manager.player = .ok player →
      Updated engine input { (engine.pressKeys input.q input.p).withWorld world with camera }
  | idle : engine.session.temuRun = false → engine.gameState ≠ .run → Updated engine input engine

theorem updated_of_ok {engine next : EngineContext K} {input : FrameInput K}
    (result : engineUpdate engine input = .ok next) : Updated engine input next := by
  unfold engineUpdate at result
  split at result
  · rename_i opened
    unfold updateConsole at result
    split at result
    · cases result
    · rename_i map found
      obtain ⟨typed, _, rest⟩ := bind_ok_iff.mp result
      obtain ⟨shown, _, same⟩ := bind_ok_iff.mp rest
      cases same
      exact .console opened found
  · rename_i closed
    rw [Bool.not_eq_true] at closed
    split at result
    · rename_i running
      obtain ⟨moved, updated, rest⟩ := bind_ok_iff.mp result
      obtain ⟨player, read, same⟩ := bind_ok_iff.mp rest
      cases same
      unfold gameUpdate at updated
      split at updated
      · rename_i map found
        obtain ⟨world, taken, rfl⟩ := map_ok_iff.mp updated
        exact .game closed running found taken read
      · cases updated
    · rename_i waiting
      cases result
      exact .idle closed waiting

theorem Updated.menu_eq {engine next : EngineContext K} {input : FrameInput K}
    (updated : Updated engine input next) : next.menu = engine.menu := by
  cases updated <;> rfl

/-! ## engine_draw -/

/-- The level the start menu loads in a frame, if it is drawn. -/
def pickedLevel (menu : Menu) (click : Click K) : Option Bytes :=
  if menu.levelSelectActive ∧ (menu.pick click).selectedLevelPath.val ≠ [] then
    some (menu.pick click).selectedLevelPath.val
  else none

inductive Drawn (engine : EngineContext K) (input : FrameInput K) : EngineContext K → Prop where
  | started {path : Bytes} {loaded : LoadedMap K} {player : Player K} {camera : Camera K} {menu : Menu} :
      engine.gameState = .stop → pickedLevel engine.menu input.click = some path →
      getMap input.loads (input.files path) = .ok (some loaded) → loaded.manager.player = .ok player →
      Drawn engine input { engine with
        gameState := .run
        currentMap := some loaded.config
        entityManager := loaded.manager
        textureManager := loaded.textures
        camera
        menu }
  | refused {menu : Menu} : engine.gameState = .stop →
      Drawn engine input { engine with gameState := .stop, currentMap := none, menu }
  | selecting {menu : Menu} : engine.gameState = .stop → Drawn engine input { engine with menu }
  | left {menu : Menu} : engine.gameState = .stop → Drawn engine input { engine with gameState := .exit, menu }
  | running {session : Session K} : engine.gameState = .run → session.temuRun = engine.session.temuRun →
      Drawn engine input { engine with session }
  | paused {state : GameState} : engine.gameState = .pause → state ≠ .exit →
      Drawn engine input { engine with gameState := state }
  | finished : engine.gameState = .exit → Drawn engine input engine

theorem drawn_of_drawStartMenu {engine next : EngineContext K} {input : FrameInput K}
    (stopped : engine.gameState = .stop) (result : drawStartMenu engine input = .ok next) :
    Drawn engine input next := by
  unfold drawStartMenu at result
  split at result
  · rename_i active
    unfold drawLevelList at result
    dsimp only at result
    split at result
    · rename_i named
      -- The level of the picked path is loaded in this frame.
      have picked : pickedLevel engine.menu input.click = some _ := if_pos ⟨active, named⟩
      obtain ⟨answer, read, rest⟩ := bind_ok_iff.mp result
      cases answer with
      | none =>
        cases rest
        exact .refused stopped
      | some loaded =>
        obtain ⟨player, found, same⟩ := bind_ok_iff.mp rest
        cases same
        exact .started stopped picked read found
    · cases result
      exact .selecting stopped
  · cases result
    unfold drawButtons
    dsimp only
    split <;> split
    · exact .left stopped
    · exact .selecting stopped
    · exact .left stopped
    · exact show Drawn engine input { engine with menu := engine.menu } from .selecting stopped

omit [Scalar K] in
theorem gameDraw_same {engine next : EngineContext K} (result : gameDraw engine = .ok next) : next = engine := by
  unfold gameDraw at result
  split at result
  · obtain ⟨_, _, rest⟩ := bind_ok_iff.mp result
    obtain ⟨_, _, same⟩ := bind_ok_iff.mp rest
    exact (Except.ok.inj same).symm
  · obtain ⟨_, _, same⟩ := bind_ok_iff.mp result
    exact (Except.ok.inj same).symm

theorem drawn_of_ok {engine next : EngineContext K} {input : FrameInput K}
    (result : engineDraw engine input = .ok next) : Drawn engine input next := by
  unfold engineDraw at result
  split at result
  · rename_i stopped
    exact drawn_of_drawStartMenu stopped result
  · rename_i running
    unfold drawRunning at result
    split at result
    · cases result
      exact .running running rfl
    · rw [gameDraw_same result]
      exact show Drawn engine input { engine with session := engine.session } from .running running rfl
  · rename_i paused
    cases result
    unfold drawPauseMenu
    dsimp only
    split <;> split
    · exact .paused paused (by simp)
    · exact .paused paused (by simp)
    · exact .paused paused (by simp)
    · exact show Drawn engine input { engine with gameState := engine.gameState } from
        .paused paused (by simp [paused])
  · rename_i finished
    cases result
    exact .finished finished

theorem engineStep_frame {engine : EngineContext K} {input : FrameInput K} (alive : engine.gameState ≠ .exit) :
    engineStep engine (.frame input) = engineUpdate engine input >>= fun middle => engineDraw middle input :=
  if_neg alive

theorem engineStep_finished {engine : EngineContext K} {input : FrameInput K} (finished : engine.gameState = .exit) :
    engineStep engine (.frame input) = .ok engine :=
  if_pos finished

theorem frame_cases {engine next : EngineContext K} {input : FrameInput K}
    (taken : engineStep engine (.frame input) = .ok next) :
    engine.gameState = .exit ∧ next = engine ∨
      ∃ middle, Updated engine input middle ∧ Drawn middle input next := by
  by_cases finished : engine.gameState = .exit
  · rw [engineStep_finished finished] at taken
    exact .inl ⟨finished, (Except.ok.inj taken).symm⟩
  · rw [engineStep_frame finished] at taken
    obtain ⟨middle, updated, drawn⟩ := bind_ok_iff.mp taken
    exact .inr ⟨middle, updated_of_ok updated, drawn_of_ok drawn⟩

def smallLevel (entity : String) : Json :=
  let object (id : Int) (entity : Bytes) : Json := .object [(text "id", .number id), (text "name", .string []),
    (text "texture", .string []), (text "entity", .string entity)]
  .object [(text "objects", .array [object 0 [], object 1 (text entity)]),
    (text "map", .object [(text "size", .object [(text "rows", .number 1), (text "cols", .number 1)]),
      (text "data", .array [.array [.number 1]])])]

def smallMenu : Menu where
  startButton := ⟨500, 300, 100, 40⟩
  exitButton := ⟨500, 360, 100, 40⟩
  resumeButton := ⟨500, 300, 100, 40⟩
  levelFiles := [text "small"]
  levelSelectIndex := 0
  levelSelectActive := false
  selectedLevelPath := CharArray.empty room256

def clickFrame (file : Json) (click : Click Rat) : FrameInput Rat where
  move := ⟨false, false, false, false⟩
  q := false
  p := false
  click := click
  console := ⟨0, false, false, false, 0⟩
  output := .wouldBlock
  files := fun _ => some file
  loads := fun _ => true

def startFirstLevel (file : Json) : List (EngineEvent Rat) :=
  [.frame (clickFrame file (some ⟨510, 310⟩)), .frame (clickFrame file (some ⟨30, 50⟩))]

end Trigger.Engine
