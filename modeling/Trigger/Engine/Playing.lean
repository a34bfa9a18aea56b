import Trigger.Engine.ConsoleInGame
import Trigger.Engine.DoorLift
import Trigger.Foundation.Histories

/-! The level the engine plays.

The menu opens a level, and from then on the frames of the running game and the messages
of the broker happen to it, in their order; a frame with an open console or of the paused
game changes nothing of it. What is known of a level alone holds of the engine by this.
-/

set_option autoImplicit false

namespace Trigger.Engine
open Foundation Config Terminal

variable {K : Type}

/-- The frames of these states update no entity and open no level. -/
def Suspended (engine : EngineContext K) : Prop :=
  engine.gameState = .run ∧ engine.session.temuRun = true ∨ engine.gameState = .pause ∨ engine.gameState = .exit

def FramesSuspended (engine : EngineContext K) : EngineEvent K → Prop
  | .frame _ => Suspended engine
  | _ => True

def EngineEvent.isDoorMessage : EngineEvent K → Bool
  | .doorMessage _ _ => true
  | _ => false

/-- The engine with the console and the state of the game taken from another. -/
def EngineContext.like (engine other : EngineContext K) : EngineContext K :=
  { engine with session := other.session, gameState := other.gameState }

instance (engine : EngineContext K) : Decidable (Suspended engine) := inferInstanceAs (Decidable (_ ∨ _))

instance (engine : EngineContext K) (event : EngineEvent K) : Decidable (FramesSuspended engine event) :=
  match event with
  | .frame _ => inferInstanceAs (Decidable (Suspended engine))
  | .doorMessage _ _ => isTrue trivial
  | .connectionFailed => isTrue trivial

section
variable [Scalar K] {engine next : EngineContext K} {input : FrameInput K}

theorem suspended_frame (suspended : Suspended engine) (taken : engineStep engine (.frame input) = .ok next) :
    next = engine.like next := by
  rcases frame_cases taken with ⟨_, rfl⟩ | ⟨middle, updated, drawn⟩
  · rfl
  · -- The update goes to the console or does nothing, and the game is not stopped.
    have started : engine.gameState ≠ .stop := by
      rcases suspended with ⟨running, _⟩ | paused | finished <;> simp [*]
    have kept : middle = engine.like middle ∧ middle.gameState ≠ .stop := by
      cases updated with
      | console opened found => exact ⟨rfl, started⟩
      | game closed running found taken read =>
        rcases suspended with ⟨_, opened⟩ | paused | finished
        · rw [closed] at opened
          cases opened
        · rw [running] at paused
          cases paused
        · rw [running] at finished
          cases finished
      | idle closed still => exact ⟨rfl, started⟩
    obtain ⟨same, playing⟩ := kept
    cases drawn with
    | started stopped _ _ _ => exact absurd stopped playing
    | refused stopped => exact absurd stopped playing
    | selecting stopped => exact absurd stopped playing
    | left stopped => exact absurd stopped playing
    | running _ _ =>
      rw [same]
      rfl
    | paused _ _ =>
      rw [same]
      rfl
    | finished _ => exact same

/-- Frames while the game is paused or its console open can be left out: what the engine
is after them, beside the console and the state of the game, the messages alone make of it. -/
theorem suspended_frames_erased {engine final : EngineContext K} {events : List (EngineEvent K)}
    (suspended : Along engineStep FramesSuspended engine events) (reached : run engineStep engine events = .ok final) :
    run engineStep (engine.like final) (events.filter EngineEvent.isDoorMessage) = .ok final := by
  induction events generalizing engine with
  | nil =>
    cases reached
    rfl
  | cons event rest ih =>
    obtain ⟨next, taken, remaining⟩ := run_cons_ok_iff.mp reached
    have later := ih (suspended.2 next taken) remaining
    cases event with
    | frame input =>
      -- The frame is left out, and what it changed is taken from the end.
      have same : next.like final = engine.like final := by
        rw [suspended_frame suspended.1 taken]
        rfl
      exact same ▸ later
    | doorMessage doorId state =>
      cases taken
      exact (run_cons_of_ok rfl _).trans later
    | connectionFailed =>
      cases taken
      exact later

end

/-- A message for the door of the level, between two frames of the open console. -/
def consoleMessages (file : Json) : List (EngineEvent Rat) :=
  [.frame (clickFrame file none), .doorMessage 0 1, .frame (clickFrame file none)]

def doorLevel : Json := gridLevel [[0, 0], [1, 2], [4, 4]] 2

theorem consoleMessages_erased :
    ∃ engine final, run engineStep (engineInit smallMenu 1280 720)
        (startFirstLevel doorLevel ++ [openConsole doorLevel]) = .ok engine ∧
      run engineStep engine (consoleMessages doorLevel) = .ok final ∧
      run engineStep (engine.like final) [.doorMessage 0 1] = .ok final := by
  have opens : succeedsWith (fun engine : EngineContext Rat =>
      Along engineStep FramesSuspended engine (consoleMessages doorLevel) ∧
        succeedsWith (fun _ => True) (run engineStep engine (consoleMessages doorLevel)) = true)
      (run engineStep (engineInit smallMenu 1280 720) (startFirstLevel doorLevel ++ [openConsole doorLevel])) =
        true := by
    decide +kernel
  obtain ⟨engine, opened, suspended, played⟩ := exists_ok_of_succeedsWith opens
  obtain ⟨final, reached, -⟩ := exists_ok_of_succeedsWith played
  exact ⟨engine, final, opened, reached, suspended_frames_erased suspended reached⟩

section
variable [Scalar K] {keys : MoveKeys}

/-- The updates write the flag of the level end and never read it. -/
theorem updateEntity_flag {world next : World K} {index : Nat} (taken : updateEntity keys world index = .ok next)
    (ended : Bool) : ∃ flag, updateEntity keys { world with ended } index = .ok { next with ended := flag } := by
  unfold updateEntity at taken ⊢
  dsimp only
  split at taken
  · cases taken
    exact ⟨_, rfl⟩
  · rename_i self found
    obtain ⟨player, read, same⟩ := bind_ok_iff.mp taken
    have moved : next = { world with
        manager := (world.manager.setData index (.door (updateDoor self player).1)).setPlayer
          (updateDoor self player).2 } := (Except.ok.inj same).symm
    refine ⟨ended, ?_⟩
    rw [read, moved]
    rfl
  · cases taken
    exact ⟨ended, rfl⟩

theorem updateAllEntities_flag {world next : World K} (taken : updateAllEntities keys world = .ok next)
    (ended : Bool) : ∃ flag, updateAllEntities keys { world with ended } = .ok { next with ended := flag } := by
  rw [updateAllEntities, foldlM_eq_run] at taken ⊢
  generalize List.range world.manager.count = indices at taken ⊢
  induction indices generalizing world ended with
  | nil =>
    cases taken
    exact ⟨ended, rfl⟩
  | cons index rest ih =>
    obtain ⟨middle, here, remaining⟩ := run_cons_ok_iff.mp taken
    obtain ⟨flag, also⟩ := updateEntity_flag here ended
    rw [run_cons_of_ok also]
    exact ih flag remaining

theorem updateEntity_map {world next : World K} {index : Nat} (taken : updateEntity keys world index = .ok next) :
    next.map = world.map := by
  cases entityUpdated_of_ok taken <;> rfl

theorem worldStep_map {world next : World K} {event : WorldEvent} (taken : worldStep world event = .ok next) :
    next.map = world.map := by
  cases event with
  | tick keys =>
    exact foldlM_invariant (fun state : World K => state.map = world.map)
      (fun state index _ next same step => (updateEntity_map step).trans same) rfl taken
  | doorMessage doorId state =>
    cases taken
    rfl

end

/-- A level since it was opened: the counter of the player module at that time, and what
has happened to the level. -/
structure Level (K : Type) where
  loaded : LoadedMap K
  frame : Int
  events : List WorldEvent

def Level.play (level : Level K) (event : WorldEvent) : Level K :=
  { level with events := level.events ++ [event] }

section
variable [Scalar K]

def Level.world (level : Level K) : Except Fault (World K) :=
  run worldStep (level.loaded.world level.frame) level.events

/-- A frame of the running game with a closed console is a tick. -/
def noteUpdate (engine : EngineContext K) (input : FrameInput K) (level : Option (Level K)) : Option (Level K) :=
  if engine.gameState = .run ∧ engine.session.temuRun = false then
    level.map fun level => level.play (.tick input.move)
  else level

/-- The start menu opens the level that is picked; a level that cannot be loaded leaves none. -/
def noteDraw (engine : EngineContext K) (input : FrameInput K) (level : Option (Level K)) : Option (Level K) :=
  if engine.gameState = .stop then
    match pickedLevel engine.menu input.click with
    | none => level
    | some path =>
      match getMap input.loads (input.files path) with
      | .ok (some loaded) => some ⟨loaded, engine.frame, []⟩
      | _ => none
  else level

def noteEvent (engine : EngineContext K) (event : EngineEvent K) (level : Option (Level K)) : Option (Level K) :=
  match event with
  | .frame input =>
    match engineUpdate engine input with
    | .ok middle => noteDraw middle input (noteUpdate engine input level)
    | .error _ => level
  | .doorMessage doorId state => level.map fun level => level.play (.doorMessage doorId state)
  | .connectionFailed => level

/-- The level that is in play after these events. -/
def levelAfter (engine : EngineContext K) (events : List (EngineEvent K)) : Option (Level K) :=
  recorded engineStep noteEvent engine none events

/-- The engine holds what the level has become. -/
structure Shows (engine : EngineContext K) (level : Level K) : Prop where
  loaded : ∃ loads file, getMap loads file = .ok (some level.loaded)
  player : HoldsPlayer level.loaded.manager
  map : engine.currentMap = some level.loaded.config
  textures : engine.textureManager = level.loaded.textures
  world : ∃ world, level.world = .ok world ∧ engine.entityManager = world.manager ∧ engine.frame = world.frame

def InPlay (engine : EngineContext K) : Option (Level K) → Prop
  | some level => Shows engine level
  | none => engine.currentMap = none

variable {engine next : EngineContext K} {input : FrameInput K} {level : Option (Level K)}

theorem Shows.congr {other : EngineContext K} {level : Level K} (shows : Shows engine level)
    (map : other.currentMap = engine.currentMap) (textures : other.textureManager = engine.textureManager)
    (manager : other.entityManager = engine.entityManager) (frame : other.frame = engine.frame) :
    Shows other level := by
  obtain ⟨world, played, entities, counter⟩ := shows.world
  exact ⟨shows.loaded, shows.player, map.trans shows.map, textures.trans shows.textures, world, played,
    manager.trans entities, frame.trans counter⟩

theorem InPlay.congr {other : EngineContext K} (inPlay : InPlay engine level)
    (map : other.currentMap = engine.currentMap) (textures : other.textureManager = engine.textureManager)
    (manager : other.entityManager = engine.entityManager) (frame : other.frame = engine.frame) :
    InPlay other level := by
  cases level with
  | none => exact map.trans inPlay
  | some level => exact Shows.congr inPlay map textures manager frame

theorem Level.world_play {level : Level K} {world after : World K} {event : WorldEvent}
    (played : level.world = .ok world) (taken : worldStep world event = .ok after) : (level.play event).world = .ok after :=
  run_concat_of_ok played taken

theorem Level.world_map {level : Level K} {world : World K} (played : level.world = .ok world) :
    world.map = level.loaded.config.layout :=
  run_keeps (fun world : World K => world.map = level.loaded.config.layout)
    (fun _ _ _ same taken => (worldStep_map taken).trans same) rfl played

theorem Shows.tick {level : Level K} {map : LevelConfig} {world : World K} {camera : Camera K} {keys : MoveKeys}
    {q p : Bool} (shows : Shows engine level) (found : engine.currentMap = some map)
    (taken : updateAllEntities keys (engine.world map) = .ok world) :
    Shows { (engine.pressKeys q p).withWorld world with camera } (level.play (.tick keys)) := by
  obtain ⟨before, played, entities, counter⟩ := shows.world
  have same : map = level.loaded.config := Option.some.inj (found.symm.trans shows.map)
  -- The frame begins with a lowered flag, the level remembers its own.
  have start : { engine.world map with ended := before.ended } = before := by
    rw [EngineContext.world, same, entities, counter, ← Level.world_map played]
  obtain ⟨flag, ticked⟩ := updateAllEntities_flag taken before.ended
  rw [start] at ticked
  exact ⟨shows.loaded, shows.player, shows.map, shows.textures, { world with ended := flag },
    Level.world_play played ticked, rfl, rfl⟩

theorem Shows.message {level : Level K} (shows : Shows engine level) (doorId state : Int) :
    Shows { engine with entityManager := openDoor engine.entityManager doorId state }
      (level.play (.doorMessage doorId state)) := by
  obtain ⟨world, played, entities, counter⟩ := shows.world
  refine ⟨shows.loaded, shows.player, shows.map, shows.textures, _, Level.world_play played rfl, ?_, counter⟩
  exact congrArg (fun manager => openDoor manager doorId state) entities

theorem Updated.inPlay (inPlay : InPlay engine level) (updated : Updated engine input next) :
    InPlay next (noteUpdate engine input level) := by
  cases updated with
  | console opened found =>
    rw [noteUpdate, if_neg (by simp [opened])]
    exact inPlay.congr rfl rfl rfl rfl
  | game closed running found taken read =>
    rw [noteUpdate, if_pos ⟨running, closed⟩]
    cases level with
    | none =>
      rw [inPlay] at found
      cases found
    | some level => exact Shows.tick inPlay found taken
  | idle closed waiting =>
    rw [noteUpdate, if_neg fun both => waiting both.1]
    exact inPlay

theorem noteDraw_of_playing (playing : engine.gameState ≠ .stop) : noteDraw engine input level = level :=
  if_neg playing

theorem drawStartMenu_inPlay (inPlay : InPlay engine level) (stopped : engine.gameState = .stop)
    (drawn : drawStartMenu engine input = .ok next) : InPlay next (noteDraw engine input level) := by
  rw [noteDraw, if_pos stopped]
  unfold drawStartMenu at drawn
  split at drawn
  · rename_i active
    unfold drawLevelList at drawn
    dsimp only at drawn
    split at drawn
    · rename_i named
      have picked : pickedLevel engine.menu input.click = some _ := if_pos ⟨active, named⟩
      obtain ⟨answer, read, rest⟩ := bind_ok_iff.mp drawn
      rw [picked]
      dsimp only
      rw [read]
      cases answer with
      | none =>
        cases rest
        rfl
      | some loaded =>
        obtain ⟨player, found, same⟩ := bind_ok_iff.mp rest
        cases same
        exact ⟨⟨_, _, read⟩, holds_of_player_ok found, rfl, rfl, _, rfl, rfl, rfl⟩
    · rename_i unnamed
      have nothing : pickedLevel engine.menu input.click = none := if_neg fun both => unnamed both.2
      cases drawn
      rw [nothing]
      exact inPlay.congr rfl rfl rfl rfl
  · rename_i inactive
    have nothing : pickedLevel engine.menu input.click = none := if_neg fun both => inactive both.1
    cases drawn
    rw [nothing]
    unfold drawButtons
    dsimp only
    split <;> split <;> exact inPlay.congr rfl rfl rfl rfl

theorem engineDraw_inPlay (inPlay : InPlay engine level) (drawn : engineDraw engine input = .ok next) :
    InPlay next (noteDraw engine input level) := by
  by_cases stopped : engine.gameState = .stop
  · unfold engineDraw at drawn
    rw [stopped] at drawn
    exact drawStartMenu_inPlay inPlay stopped drawn
  · rw [noteDraw_of_playing stopped]
    cases drawn_of_ok drawn with
    | started stop _ _ _ => exact absurd stop stopped
    | refused stop => exact absurd stop stopped
    | selecting stop => exact absurd stop stopped
    | left stop => exact absurd stop stopped
    | running _ _ => exact inPlay.congr rfl rfl rfl rfl
    | paused _ _ => exact inPlay.congr rfl rfl rfl rfl
    | finished _ => exact inPlay

theorem engineStep_inPlay {event : EngineEvent K} (inPlay : InPlay engine level)
    (taken : engineStep engine event = .ok next) : InPlay next (noteEvent engine event level) := by
  cases event with
  | frame input =>
    rw [noteEvent]
    by_cases finished : engine.gameState = .exit
    · -- The main loop is over: nothing is noted, and nothing happens.
      have same : next = engine := Except.ok.inj (taken.symm.trans (engineStep_finished finished))
      have unplayed : noteUpdate engine input level = level := if_neg (by simp [finished])
      have stays {middle : EngineContext K} (updated : Updated engine input middle) : middle.gameState ≠ .stop := by
        cases updated <;> simp_all
      rw [same, unplayed]
      split
      · rename_i middle updated
        rwa [noteDraw_of_playing (stays (updated_of_ok updated))]
      · exact inPlay
    · rw [engineStep_frame finished] at taken
      obtain ⟨middle, updated, drawn⟩ := bind_ok_iff.mp taken
      rw [updated]
      exact engineDraw_inPlay (Updated.inPlay inPlay (updated_of_ok updated)) drawn
  | doorMessage doorId state =>
    cases taken
    cases level with
    | none => exact inPlay
    | some level => exact Shows.message inPlay doorId state
  | connectionFailed =>
    cases taken
    exact inPlay.congr rfl rfl rfl rfl

end

theorem run_mapInGame [Scalar K] {engine final : EngineContext K} {events : List (EngineEvent K)}
    (mapped : MapInGame engine) (reached : run engineStep engine events = .ok final) : MapInGame final := by
  refine run_keeps MapInGame (fun state event next mapped taken => ?_) mapped reached
  cases event with
  | frame input =>
    rcases frame_cases taken with ⟨_, rfl⟩ | ⟨middle, updated, drawn⟩
    · exact mapped
    · exact drawn.mapInGame (updated.mapInGame mapped)
  | doorMessage doorId state =>
    cases taken
    exact mapped
  | connectionFailed =>
    cases taken
    rintro (running | paused) <;> contradiction

theorem run_inPlay [Scalar K] {menu : Menu} {width height : Int} {events : List (EngineEvent K)}
    {engine : EngineContext K} (reached : run engineStep (engineInit menu width height) events = .ok engine) :
    InPlay engine (levelAfter (engineInit menu width height) events) := by
  have initial : InPlay (engineInit menu width height : EngineContext K) none := rfl
  have kept (state : EngineContext K) (level : Option (Level K)) (event : EngineEvent K) (next : EngineContext K)
      (inPlay : InPlay state level) (_ : True) (taken : engineStep state event = .ok next) :
      InPlay next (noteEvent state event level) := engineStep_inPlay inPlay taken
  exact recorded_invariant kept initial (along_of_forall (fun _ _ => trivial) _ events) reached

/-- The engine refines the level it plays: in every run its map, its textures, its entities
and the counter of the player are those of the level opened last, after one tick for each
frame of the running game with a closed console and after every message since. -/
theorem engine_plays_level [Scalar K] (menu : Menu) (width height : Int) (events : List (EngineEvent K))
    (engine : EngineContext K) (reached : run engineStep (engineInit menu width height) events = .ok engine) :
    InPlay engine (levelAfter (engineInit menu width height) events) ∧
      (engine.gameState = .run ∨ engine.gameState = .pause →
        (levelAfter (engineInit menu width height) events).isSome) := by
  have inPlay := run_inPlay reached
  have initial : MapInGame (engineInit menu width height : EngineContext K) := by
    rintro (running | paused) <;> contradiction
  refine ⟨inPlay, fun playing => ?_⟩
  have mapped := run_mapInGame initial reached playing
  cases found : levelAfter (engineInit menu width height) events with
  | none =>
    rw [found] at inPlay
    rw [inPlay] at mapped
    cases mapped
  | some level => rfl

/-- The level of the message above, with its tick and its message. -/
theorem consoleLevel_played :
    ∃ engine, run engineStep (engineInit smallMenu 1280 720)
        (startFirstLevel doorLevel ++ openConsole doorLevel :: consoleMessages doorLevel) = .ok engine ∧
      InPlay engine (levelAfter (engineInit smallMenu 1280 720)
        (startFirstLevel doorLevel ++ openConsole doorLevel :: consoleMessages doorLevel)) ∧
      (engine.gameState = .run ∨ engine.gameState = .pause →
        (levelAfter (engineInit smallMenu 1280 720)
          (startFirstLevel doorLevel ++ openConsole doorLevel :: consoleMessages doorLevel)).isSome) := by
  have plays : succeedsWith (fun engine : EngineContext Rat => engine.gameState = .run)
      (run engineStep (engineInit smallMenu 1280 720)
        (startFirstLevel doorLevel ++ openConsole doorLevel :: consoleMessages doorLevel)) = true := by
    decide +kernel
  obtain ⟨engine, reached, -⟩ := exists_ok_of_succeedsWith plays
  exact ⟨engine, reached, engine_plays_level smallMenu 1280 720 _ engine reached⟩

end Trigger.Engine
