import Trigger.Engine.WildAccess

/-! When the running game has a player.

`get_map` writes the index of the player only at a player cell, and the menu, the
frame and the doors read it unchecked; so every level that is loaded needs one.
-/

set_option autoImplicit false

namespace Trigger.Engine
open Foundation Config Terminal

variable {K : Type}

structure LivePlayer (engine : EngineContext K) : Prop where
  map : engine.currentMap.isSome
  player : HoldsPlayer engine.entityManager

theorem LivePlayer.congr {engine other : EngineContext K} (live : LivePlayer engine)
    (map : other.currentMap = engine.currentMap) (manager : other.entityManager = engine.entityManager) :
    LivePlayer other :=
  ⟨map ▸ live.map, manager ▸ live.player⟩

def PicksPlayable [Scalar K] (engine : EngineContext K) : EngineEvent K → Prop
  | .frame input => ∀ path ∈ pickedLevel engine.menu input.click, Playable (input.files path)
  | _ => True

/-- The pause menu leads back to the running game, so it needs the player too. -/
def LiveInGame (engine : EngineContext K) : Prop :=
  engine.gameState = .run ∨ engine.gameState = .pause → LivePlayer engine

section
variable [Scalar K] {engine next : EngineContext K} {input : FrameInput K}

theorem Updated.live (live : LiveInGame engine) (updated : Updated engine input next) : LiveInGame next := by
  cases updated with
  | console opened found => exact fun playing => (live playing).congr rfl rfl
  | game closed running found taken read =>
    obtain ⟨world, moved, holds⟩ := updateAllEntities_holds input.move (engine.world _)
      (live (.inl running)).player
    cases taken.symm.trans moved
    exact fun _ => ⟨(live (.inl running)).map, holds⟩
  | idle closed waiting => exact live

theorem Drawn.live (live : LiveInGame engine)
    (playable : ∀ path ∈ pickedLevel engine.menu input.click, Playable (input.files path))
    (drawn : Drawn engine input next) : LiveInGame next := by
  cases drawn with
  | started stopped picked read found => exact fun _ => ⟨rfl, getMap_holds (playable _ picked) read⟩
  | refused stopped => rintro (running | paused) <;> contradiction
  | selecting stopped => exact fun playing => (live playing).congr rfl rfl
  | left stopped => rintro (running | paused) <;> contradiction
  | running running same => exact fun playing => (live playing).congr rfl rfl
  | paused paused stays => exact fun _ => (live (.inr paused)).congr rfl rfl
  | finished finished => exact live

theorem engineUpdate_avoids {bad : Fault} (live : LiveInGame engine)
    (console : engine.session.temuRun = true → Avoids bad (updateConsole engine input)) :
    Avoids bad (engineUpdate engine input) := by
  unfold engineUpdate
  split
  · exact console ‹_›
  · split
    · rename_i running
      obtain ⟨map, loaded⟩ := Option.isSome_iff_exists.mp (live (.inl running)).map
      obtain ⟨world, moved, kept⟩ := updateAllEntities_holds input.move
        ((engine.pressKeys input.q input.p).world map) (live (.inl running)).player
      obtain ⟨player, read⟩ := player_ok_of_holds kept
      have found : ((engine.pressKeys input.q input.p).withWorld world).entityManager.player = .ok player := read
      have updated : gameUpdate (engine.pressKeys input.q input.p) input.move =
          .ok ((engine.pressKeys input.q input.p).withWorld world) := by
        simp only [gameUpdate, EngineContext.pressKeys] at moved ⊢
        rw [loaded]
        exact congrArg (Except.map _) moved
      simp [updateGame, updated, found]
    · simp

theorem engineDraw_avoids {bad : Fault} (other : bad ≠ .outOfBounds)
    (playable : ∀ path ∈ pickedLevel engine.menu input.click, Playable (input.files path)) :
    Avoids bad (engineDraw engine input) := by
  unfold engineDraw
  split
  · unfold drawStartMenu
    split
    · rename_i active
      unfold drawLevelList
      dsimp only
      split
      · rename_i named
        have picked := playable _ (if_pos ⟨active, named⟩)
        refine avoids_bind_iff.mpr ⟨avoids_getMap picked other _, fun answer read => ?_⟩
        cases answer with
        | none => simp
        | some loaded =>
          -- The level is playable, so the index the menu reads was written.
          obtain ⟨player, found⟩ := player_ok_of_holds (getMap_holds picked read)
          simp [startLevel, found]
      · simp
    · simp
  · unfold drawRunning
    split
    · simp
    · exact avoids_gameDraw other engine
  · simp
  · simp

theorem engineStep_live {event : EngineEvent K} (live : LiveInGame engine) (picks : PicksPlayable engine event)
    (taken : engineStep engine event = .ok next) : LiveInGame next := by
  cases event with
  | frame input =>
    rcases frame_cases taken with ⟨finished, rfl⟩ | ⟨middle, updated, drawn⟩
    · exact live
    · refine Drawn.live (updated.live live) ?_ drawn
      -- The update leaves the menu to the drawing.
      rw [updated.menu_eq]
      exact picks
  | doorMessage doorId state =>
    cases taken
    intro playing
    exact ⟨(live playing).map, (openDoor_sameKinds ..).holds (live playing).player⟩
  | connectionFailed =>
    cases taken
    rintro (running | paused) <;> contradiction

/-- The step is a frame that stops while its keys or the output of the emulator go to the console. -/
def StopsInConsole (engine : EngineContext K) (event : EngineEvent K) (fault : Fault) : Prop :=
  ∃ input, event = .frame input ∧ engine.session.temuRun = true ∧ updateConsole engine input = .error fault

theorem engineStep_faults {event : EngineEvent K} {fault : Fault} (live : LiveInGame engine)
    (picks : PicksPlayable engine event) (stopped : engineStep engine event = .error fault) :
    fault = .outOfBounds ∨ StopsInConsole engine event fault := by
  by_contra elsewhere
  obtain ⟨other, console⟩ := not_or.mp elsewhere
  refine absurd stopped (?_ : Avoids fault _)
  cases event with
  | frame input =>
    by_cases finished : engine.gameState = .exit
    · rw [engineStep_finished finished]
      exact avoids_ok engine
    · rw [engineStep_frame finished]
      refine avoids_bind_iff.mpr ⟨?_, fun middle updated => engineDraw_avoids other ?_⟩
      · exact engineUpdate_avoids live fun opened faulted => console ⟨input, rfl, opened, faulted⟩
      · rw [(updated_of_ok updated).menu_eq]
        exact picks
  | doorMessage doorId state => simp [engineStep]
  | connectionFailed => simp [engineStep]

theorem engineStep_no_wildAccess {event : EngineEvent K} (live : LiveInGame engine)
    (picks : PicksPlayable engine event) : engineStep engine event ≠ .error .wildAccess := by
  intro stopped
  rcases engineStep_faults live picks stopped with no | ⟨input, -, -, faulted⟩
  · cases no
  · exact avoids_updateConsole engine input faulted

end

/-- In a run whose loaded levels can be read and have a player, a running state has a live player,
also between the update and the drawing. What can stop such a run is a texture index outside of its
table, or the console. -/
theorem running_has_live_player [Scalar K] (menu : Menu) (width height : Int) (events : List (EngineEvent K))
    (along : Along engineStep PicksPlayable (engineInit menu width height) events) :
    run engineStep (engineInit menu width height) events ≠ .error .wildAccess ∧
      (∀ front event back engine fault, events = front ++ event :: back →
        run engineStep (engineInit menu width height) front = .ok engine → engineStep engine event = .error fault →
        fault = .outOfBounds ∨ StopsInConsole engine event fault) ∧
      ∀ engine, run engineStep (engineInit menu width height) events = .ok engine →
        (engine.gameState = .run → LivePlayer engine) ∧
        ∀ input middle, engineUpdate engine input = .ok middle → middle.gameState = .run → LivePlayer middle := by
  have initial : LiveInGame (engineInit menu width height : EngineContext K) := by
    rintro (running | paused) <;> contradiction
  have kept (engine : EngineContext K) (event : EngineEvent K) (next : EngineContext K)
      (live : LiveInGame engine) (picks : PicksPlayable engine event)
      (taken : engineStep engine event = .ok next) : LiveInGame next := engineStep_live live picks taken
  refine ⟨run_avoids kept (fun engine event live picks => engineStep_no_wildAccess live picks) initial along, ?_,
    fun engine reached => ?_⟩
  · intro front event back engine fault same reached stopped
    subst same
    have live := run_invariant kept initial (along_append along) reached
    exact engineStep_faults live (along_iff_forall.mp along front event back engine rfl reached) stopped
  · have live := run_invariant kept initial along reached
    exact ⟨fun running => live (.inl running), fun input middle updated running =>
      (updated_of_ok updated).live live (.inl running)⟩

theorem smallLevel_playable : Playable (some (smallLevel "player")) :=
  .inr ⟨_, _, rfl, rfl, 0, 0, 1, by decide, by decide⟩

/-- Starting a level with a player keeps it live. -/
theorem startPlayerLevel_live :
    run engineStep (engineInit smallMenu 1280 720) (startFirstLevel (smallLevel "player")) ≠ .error .wildAccess ∧
      (∀ front event back engine fault, startFirstLevel (smallLevel "player") = front ++ event :: back →
        run engineStep (engineInit smallMenu 1280 720) front = .ok engine → engineStep engine event = .error fault →
        fault = .outOfBounds ∨ StopsInConsole engine event fault) ∧
      ∀ engine, run engineStep (engineInit smallMenu 1280 720) (startFirstLevel (smallLevel "player")) = .ok engine →
        (engine.gameState = .run → LivePlayer engine) ∧
        ∀ input middle, engineUpdate engine input = .ok middle → middle.gameState = .run → LivePlayer middle := by
  have picks (engine : EngineContext Rat) (click : Click Rat) :
      PicksPlayable engine (.frame (clickFrame (smallLevel "player") click)) :=
    fun _ _ => smallLevel_playable
  exact running_has_live_player smallMenu 1280 720 (startFirstLevel (smallLevel "player"))
    ⟨picks _ _, fun _ _ => ⟨picks _ _, fun _ _ => trivial⟩⟩

/-- A level without one is loaded and runs, and the menu reads the player through an
index that nothing wrote. -/
theorem startEmptyLevel_wildAccess :
    (∃ loaded : LoadedMap Rat, getMap (fun _ => true) (some (smallLevel "box")) = .ok (some loaded) ∧
      ¬ HoldsPlayer loaded.manager) ∧
    run engineStep (engineInit smallMenu 1280 720) (startFirstLevel (smallLevel "box")) = .error .wildAccess := by
  constructor
  · refine ⟨_, rfl, ?_⟩
    rintro ⟨index, entity, self, written, _⟩
    cases written
  · have stopped : faultOf (run engineStep (engineInit smallMenu 1280 720) (startFirstLevel (smallLevel "box"))) =
        some .wildAccess := by decide +kernel
    exact faultOf_eq_some_iff.mp stopped

end Trigger.Engine
