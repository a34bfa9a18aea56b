import Trigger.Engine.Frames
import Trigger.Engine.Roster
import Trigger.Foundation.Runs

/-! Where the console can be open.

The flag of the console and the state of the game are set independently: a frame
of the running game opens the console on P, pauses on Q, and stops at a level
end, and nothing orders the three.
-/

set_option autoImplicit false

namespace Trigger.Engine
open Foundation Config Terminal

variable {K : Type}

/-- An open console has a running game, or one that is finished, and a map. -/
def ConsoleInGame (engine : EngineContext K) : Prop :=
  engine.session.temuRun = true →
    (engine.gameState = .run ∨ engine.gameState = .exit) ∧ engine.currentMap.isSome

/-- A running or paused game has a map; the pause menu leads back to the game. -/
def MapInGame (engine : EngineContext K) : Prop :=
  engine.gameState = .run ∨ engine.gameState = .pause → engine.currentMap.isSome

/-- The player that is updated in this turn, if one is, meets no level end. -/
def TurnGoesOn [Scalar K] (keys : MoveKeys) (world : World K) (index : Nat) : Prop :=
  ∀ self, world.manager.entities[index]? = some ⟨.player self, true⟩ → ¬ self.MeetsEnd world.map keys

/-- The updates of the next frame bring no player to a level end. -/
def GoesOn [Scalar K] (engine : EngineContext K) (keys : MoveKeys) : Prop :=
  ∀ map ∈ engine.currentMap,
    Along (updateEntity keys) (TurnGoesOn keys) (engine.world map) (List.range engine.entityManager.count)

/-- A frame of the running game that opens the console does nothing else that leaves
the game: Q is not pressed, and no player meets a level end. -/
def OpensInGame [Scalar K] (engine : EngineContext K) : EngineEvent K → Prop
  | .frame input =>
    engine.session.temuRun = false → engine.gameState = .run → input.p = true →
      input.q = false ∧ GoesOn engine input.move
  | _ => True

instance [Scalar K] (keys : MoveKeys) (world : World K) (index : Nat) : Decidable (TurnGoesOn keys world index) :=
  match found : world.manager.entities[index]? with
  | some ⟨.player self, true⟩ => decidable_of_iff (¬ self.MeetsEnd world.map keys) (by simp [TurnGoesOn, found])
  | some ⟨.player _, false⟩ => isTrue (by simp [TurnGoesOn, found])
  | some ⟨.door _, _⟩ => isTrue (by simp [TurnGoesOn, found])
  | none => isTrue (by simp [TurnGoesOn, found])

instance [Scalar K] (engine : EngineContext K) (keys : MoveKeys) : Decidable (GoesOn engine keys) :=
  inferInstanceAs (Decidable (∀ map ∈ engine.currentMap, _))

instance (engine : EngineContext K) : Decidable (ConsoleInGame engine) :=
  inferInstanceAs (Decidable (_ → _))

instance [Scalar K] (engine : EngineContext K) (event : EngineEvent K) : Decidable (OpensInGame engine event) :=
  match event with
  | .frame _ => inferInstanceAs (Decidable (_ → _ → _ → _))
  | .doorMessage _ _ => isTrue trivial
  | .connectionFailed => isTrue trivial

section
variable [Scalar K] {engine next : EngineContext K} {input : FrameInput K}

theorem updateEntity_ended_iff {keys : MoveKeys} {world next : World K} {index : Nat}
    (taken : updateEntity keys world index = .ok next) :
    next.ended = false ↔ world.ended = false ∧ TurnGoesOn keys world index := by
  cases entityUpdated_of_ok taken with
  | @player self found =>
    have meets := updatePlayer_ended_iff world.map keys world.frame self
    simp [TurnGoesOn, found, ← meets]
  | door found read => simp [TurnGoesOn, found]
  | skipped passive =>
    have passes : TurnGoesOn keys world index := fun self found => nomatch passive _ found
    simp [passes]

/-- A pass over the entities reaches a level end exactly when a player meets one on its turn. -/
theorem run_ended_iff {keys : MoveKeys} {indices : List Nat} {world next : World K}
    (taken : run (updateEntity keys) world indices = .ok next) :
    next.ended = false ↔ world.ended = false ∧ Along (updateEntity keys) (TurnGoesOn keys) world indices := by
  induction indices generalizing world with
  | nil =>
    cases taken
    simp [Along]
  | cons index rest ih =>
    obtain ⟨middle, first, remaining⟩ := run_cons_ok_iff.mp taken
    have along : Along (updateEntity keys) (TurnGoesOn keys) world (index :: rest) ↔
        TurnGoesOn keys world index ∧ Along (updateEntity keys) (TurnGoesOn keys) middle rest := by
      simp [Along, first]
    rw [ih remaining, updateEntity_ended_iff first, along, and_assoc]

theorem goesOn_iff {engine : EngineContext K} {keys : MoveKeys} {map : LevelConfig} {world : World K}
    (found : engine.currentMap = some map) (taken : updateAllEntities keys (engine.world map) = .ok world) :
    GoesOn engine keys ↔ world.ended = false := by
  have passed : run (updateEntity keys) (engine.world map) (List.range engine.entityManager.count) = .ok world := by
    rw [← foldlM_eq_run]
    exact taken
  rw [run_ended_iff passed]
  simp [GoesOn, found, EngineContext.world]

theorem Updated.mapInGame (mapped : MapInGame engine) (updated : Updated engine input next) :
    MapInGame next := by
  cases updated with
  | console opened found => exact mapped
  | game closed running found taken read => exact fun _ => mapped (.inl running)
  | idle closed waiting => exact mapped

theorem Drawn.mapInGame (mapped : MapInGame engine) (drawn : Drawn engine input next) : MapInGame next := by
  cases drawn with
  | started stopped picked read found => exact fun _ => rfl
  | refused stopped => rintro (running | paused) <;> contradiction
  | selecting stopped => exact mapped
  | left stopped => rintro (running | paused) <;> contradiction
  | running running same => exact mapped
  | paused paused stays => exact fun _ => mapped (.inr paused)
  | finished finished => exact mapped

theorem Updated.consoleInGame (inGame : ConsoleInGame engine) (opens : OpensInGame engine (.frame input))
    (updated : Updated engine input next) : ConsoleInGame next := by
  cases updated with
  | console opened found => exact fun _ => inGame opened
  | @game map world player camera closed running found taken read =>
    intro opened
    -- The console was closed, so P is pressed in this frame.
    have pressed : input.p = true := by
      by_contra released
      simp [EngineContext.withWorld, EngineContext.pressKeys, released, closed] at opened
    obtain ⟨stays, inside⟩ := opens closed running pressed
    have going : world.ended = false := (goesOn_iff found taken).mp inside
    refine ⟨.inl ?_, by simp [EngineContext.withWorld, EngineContext.pressKeys, found]⟩
    simp [EngineContext.withWorld, EngineContext.pressKeys, stays, going, running]
  | idle closed waiting => exact inGame

/-- A menu is drawn in the states of a closed console, so drawing leaves it closed. -/
theorem Drawn.consoleInGame (inGame : ConsoleInGame engine) (drawn : Drawn engine input next) :
    ConsoleInGame next := by
  have closed (menu : engine.gameState = .stop ∨ engine.gameState = .pause) :
      engine.session.temuRun ≠ true := fun opened => by
    rcases menu with stopped | paused <;> rcases (inGame opened).1 with running | finished <;> simp_all
  cases drawn with
  | started stopped picked read found => exact fun opened => absurd opened (closed (.inl stopped))
  | refused stopped => exact fun opened => absurd opened (closed (.inl stopped))
  | selecting stopped => exact inGame
  | left stopped => exact fun opened => absurd opened (closed (.inl stopped))
  | running running same => exact fun opened => inGame (same ▸ opened)
  | paused paused stays => exact fun opened => absurd opened (closed (.inr paused))
  | finished finished => exact inGame

end

def InGame (engine : EngineContext K) : Prop := ConsoleInGame engine ∧ MapInGame engine

theorem engineStep_inGame [Scalar K] {engine next : EngineContext K} {event : EngineEvent K}
    (inGame : InGame engine) (opens : OpensInGame engine event) (taken : engineStep engine event = .ok next) :
    InGame next := by
  cases event with
  | frame input =>
    rcases frame_cases taken with ⟨finished, rfl⟩ | ⟨middle, updated, drawn⟩
    · exact inGame
    · exact ⟨drawn.consoleInGame (updated.consoleInGame inGame.1 opens),
        drawn.mapInGame (updated.mapInGame inGame.2)⟩
  | doorMessage doorId state =>
    cases taken
    exact inGame
  | connectionFailed =>
    cases taken
    refine ⟨fun opened => ⟨.inr rfl, (inGame.1 opened).2⟩, ?_⟩
    rintro (running | paused) <;> contradiction

/-- In a run whose frames open the console only within the game, the console is open
only within the game, also between the update and the drawing of a frame. -/
theorem console_only_in_game [Scalar K] (menu : Menu) (width height : Int) (events : List (EngineEvent K))
    (along : Along engineStep OpensInGame (engineInit menu width height) events) (engine : EngineContext K)
    (reached : run engineStep (engineInit menu width height) events = .ok engine) :
    ConsoleInGame engine ∧ ∀ input middle, OpensInGame engine (.frame input) →
      engineUpdate engine input = .ok middle → ConsoleInGame middle := by
  have initial : InGame (engineInit menu width height : EngineContext K) := by
    refine ⟨nofun, ?_⟩
    rintro (running | paused) <;> contradiction
  have inGame := run_invariant (fun engine event next inGame opens taken =>
    engineStep_inGame inGame opens taken) initial along reached
  exact ⟨inGame.1, fun input middle opens updated => (updated_of_ok updated).consoleInGame inGame.1 opens⟩

def pauseAndOpen (file : Json) : EngineEvent Rat := .frame { clickFrame file none with q := true, p := true }

def openConsole (file : Json) : EngineEvent Rat := .frame { clickFrame file none with p := true }

theorem openConsole_in_game :
    ∃ engine, run engineStep (engineInit smallMenu 1280 720)
        (startFirstLevel (smallLevel "player") ++ [openConsole (smallLevel "player")]) = .ok engine ∧
      engine.session.temuRun = true ∧ ConsoleInGame engine := by
  have opens : succeedsWith (fun engine : EngineContext Rat => engine.session.temuRun = true)
      (run engineStep (engineInit smallMenu 1280 720)
        (startFirstLevel (smallLevel "player") ++ [openConsole (smallLevel "player")])) = true := by
    decide +kernel
  obtain ⟨engine, reached, opened⟩ := exists_ok_of_succeedsWith opens
  exact ⟨engine, reached, opened, (console_only_in_game smallMenu 1280 720 _ (by decide +kernel) engine reached).1⟩

/-- After it the pause menu is shown while the keys go to the console. -/
theorem pauseAndOpen_leaves_game :
    ∃ engine, run engineStep (engineInit smallMenu 1280 720)
        (startFirstLevel (smallLevel "player") ++ [pauseAndOpen (smallLevel "player")]) = .ok engine ∧
      ¬ ConsoleInGame engine :=
  exists_ok_of_succeedsWith (by decide +kernel)

end Trigger.Engine
