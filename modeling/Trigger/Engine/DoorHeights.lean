import Trigger.Engine.DoorLift
import Trigger.Engine.Spawning
import Trigger.Foundation.Binary32
import Mathlib.Data.Option.Basic

/-! The doors of a level in the arithmetic of the program.

A quarter of a pixel below 2^22 is held by 24 bits and one above it is not. So a door down
to row 131072 climbs by quarters, and a door below it does not move by a quarter at all.
-/

set_option autoImplicit false

namespace Trigger.Engine
open Foundation Config

def Door.exact (door : Door Binary32) : Door Rat :=
  ⟨door.isOpen, door.id, door.textureId, ⟨door.pos.x.value, door.pos.y.value⟩, door.maxHeight.value⟩

/-- At every point of the run each door is where its messages and ticks put it, and no door sinks. -/
structure FollowsEvents (loaded : LoadedMap Binary32) (frame : Int) (events : List WorldEvent) : Prop where
  histories : ∀ front back, front ++ back = events → ∃ world, run worldStep (loaded.world frame) front = .ok world ∧
    ∀ index, Option.Rel (fun start door => DoorHistory start.exact front door.exact)
      (loaded.manager.doorAt index) (world.manager.doorAt index)
  rising : ∀ front middle back earlier later index before door, front ++ middle ++ back = events →
    run worldStep (loaded.world frame) front = .ok earlier →
    run worldStep (loaded.world frame) (front ++ middle) = .ok later →
    earlier.manager.doorAt index = some before → later.manager.doorAt index = some door →
    door.pos.y.value ≤ before.pos.y.value

theorem representable_quarters {row m : Nat} (low : row ≤ 131072) (climb : m ≤ 128) :
    Representable 24 (quarters (32 * row : Nat) m) := by
  rcases Nat.eq_zero_or_pos m with rfl | positive
  · refine ⟨row, 5, by rw [abs_of_nonneg (by omega)]; omega, ?_⟩
    rw [quarters]
    push_cast
    norm_num [mul_comm]
  · refine ⟨128 * row - m, -2, abs_lt.mpr ⟨by omega, by omega⟩, ?_⟩
    rw [quarters]
    push_cast
    norm_num
    ring

theorem deep_height {row : Nat} (deep : 131072 < row) :
    ∃ n : Int, roundBinary 24 ((32 * row : Nat) : Rat) = n ∧ 2 ^ 22 < n := by
  obtain ⟨n, same⟩ := exists_roundBinary_intCast (K := Rat) 24 (32 * row : Nat)
  have least : ((2 ^ 22 + 32 : Int) : Rat) ≤ roundBinary 24 (((32 * row : Nat) : Int) : Rat) :=
    le_roundBinary (by decide) (by norm_num) (by exact_mod_cast show 2 ^ 22 + 32 ≤ 32 * row by omega)
  rw [same] at least
  have above : 2 ^ 22 + 32 ≤ n := by exact_mod_cast least
  exact ⟨n, by rw [← same, Int.cast_natCast], by omega⟩

theorem not_representable_quarter {n : Int} (high : 2 ^ 22 < n) : ¬ Representable 24 ((n : Rat) - 1 / 4) := by
  intro held
  have scaled : (n : Rat) - 1 / 4 = ((4 * n - 1 : Int) : Rat) * 2 ^ (-2 : Int) := by
    push_cast
    norm_num
    ring
  rw [scaled] at held
  have bits := held.odd_lt ⟨2 * n - 1, by ring⟩
  rw [abs_of_pos (by omega)] at bits
  omega

theorem mem_doors_iff {K : Type} {manager : EntityManager K} {door : Door K} :
    door ∈ manager.doors ↔ ∃ index, manager.doorAt index = some door := by
  rw [EntityManager.doors, List.mem_filterMap]
  constructor
  · rintro ⟨⟨data, active⟩, member, isDoor⟩
    obtain ⟨index, found⟩ := List.mem_iff_getElem?.mp member
    cases data with
    | player self => cases isDoor
    | door self =>
      cases isDoor
      exact ⟨index, doorAt_eq_some_iff.mpr ⟨active, found⟩⟩
  · rintro ⟨index, found⟩
    obtain ⟨active, stored⟩ := doorAt_eq_some_iff.mp found
    exact ⟨⟨.door door, active⟩, List.mem_of_getElem? stored, rfl⟩

section
variable {loads : Bytes → Bool} {file : Option Json} {stored : LoadedConfig} {config : LevelConfig}

theorem getMap_doorAt_iff {K : Type} [Scalar K] {loaded : LoadedMap K} (parsed : loadLevelFile file = .ok (some stored))
    (read : stored.read = .ok config) (mapped : getMap loads file = .ok (some loaded)) {door : Door K} :
    (∃ index, loaded.manager.doorAt index = some door) ↔
      ∃ k cell, (doorCells config.objects config.layout.cells)[k]? = some cell ∧ door = doorOf k cell := by
  obtain ⟨_, _, spawning, parsed', read', spawned, same⟩ := getMap_spawns mapped
  cases parsed.symm.trans parsed'
  cases read.symm.trans read'
  rw [same, ← mem_doors_iff, (spawnEntities_scanned spawned).doors, List.mem_mapIdx]
  constructor
  · rintro ⟨k, inside, rfl⟩
    exact ⟨k, _, List.getElem?_eq_getElem inside, rfl⟩
  · rintro ⟨k, cell, found, rfl⟩
    obtain ⟨inside, rfl⟩ := List.getElem?_eq_some_iff.mp found
    exact ⟨k, inside, rfl⟩

end

def roundedQuarters (y : Binary32) (m : Nat) : Binary32 := .round (quarters y.value m)

theorem roundedQuarters_zero (y : Binary32) : roundedQuarters y 0 = y :=
  Binary32.ext (by rw [roundedQuarters, quarters, Nat.cast_zero, zero_div, sub_zero, Binary32.round_value y.held])

section
variable {k : Nat} {cell : Nat × Nat × Int}

theorem doorOf_y : (doorOf k cell : Door Binary32).pos.y.value = roundBinary 24 ((32 * cell.1 : Nat) : Rat) := by
  change roundBinary 24 (((cell.1 * 32 : Nat) : Int) : Rat) = _
  rw [Int.cast_natCast, Nat.mul_comm]

theorem doorOf_y_low (low : cell.1 ≤ 131072) :
    (doorOf k cell : Door Binary32).pos.y.value = (32 * cell.1 : Nat) := by
  rw [doorOf_y]
  have held := representable_quarters low (Nat.zero_le 128)
  rw [quarters, Nat.cast_zero, zero_div, sub_zero] at held
  exact held.round

theorem roundedQuarters_low (low : cell.1 ≤ 131072) {m : Nat} (climb : m ≤ 128) :
    (roundedQuarters (doorOf k cell : Door Binary32).pos.y m).value = quarters (32 * cell.1 : Nat) m := by
  rw [roundedQuarters, doorOf_y_low low, Binary32.round_value (representable_quarters low climb)]

theorem doorOf_limit_low (low : cell.1 ≤ 131072) :
    (doorOf k cell : Door Binary32).maxHeight.value = quarters (32 * cell.1 : Nat) 128 := by
  have held := representable_quarters low (le_refl 128)
  have step : (ofInt 32 : Binary32).value = 32 := Binary32.ofRat_value (representable_intCast (n := 32) (by decide))
  have same : quarters (32 * cell.1 : Nat) 128 = (32 * cell.1 : Nat) - (ofInt 32 : Binary32).value := by
    rw [step, quarters]
    norm_num
  rw [same, ← doorOf_y_low (k := k) low] at held ⊢
  exact Binary32.sub_value held

/-- A door down to row 131072 climbs by exact quarters. -/
theorem climbs_of_low (low : cell.1 ≤ 131072) (ticks : Nat) :
    Climbs (doorOf k cell : Door Binary32) (roundedQuarters (doorOf k cell : Door Binary32).pos.y) ticks := by
  have quarter : (Scalar.ofRat (1 / 4) : Binary32).value = 1 / 4 :=
    Binary32.ofRat_value ⟨1, -2, by decide, by norm_num⟩
  refine ⟨roundedQuarters_zero _, fun m _ below => ⟨?_, Binary32.ext ?_⟩, fun _ => ?_⟩
  · rw [Binary32.lt_iff, doorOf_limit_low low, roundedQuarters_low low below.le, quarters, quarters]
    have less : (m : Rat) < 128 := by exact_mod_cast below
    push_cast
    linarith
  · have next : quarters (32 * cell.1 : Nat) (m + 1) = quarters (32 * cell.1 : Nat) m - 1 / 4 := by
      rw [quarters, quarters]
      push_cast
      ring
    have exact := roundedQuarters_low (k := k) low below.le
    have held : Representable 24 ((roundedQuarters (doorOf k cell : Door Binary32).pos.y m).value -
        (Scalar.ofRat (1 / 4) : Binary32).value) := by
      rw [exact, quarter, ← next]
      exact representable_quarters low below
    rw [Binary32.sub_value held, exact, quarter, ← next, roundedQuarters_low low below]
  · rw [Binary32.lt_iff, doorOf_limit_low low, roundedQuarters_low low (le_refl 128)]
    exact lt_irrefl _

theorem climbs_of_unopened {door : Door Binary32} : Climbs door (roundedQuarters door.pos.y) 0 :=
  ⟨roundedQuarters_zero _, nofun, nofun⟩

theorem history_of_low (low : cell.1 ≤ 131072) (events : List WorldEvent) :
    DoorHistory (doorOf k cell : Door Binary32).exact events
      ((doorOf k cell : Door Binary32).after (roundedQuarters (doorOf k cell : Door Binary32).pos.y) events).exact := by
  have limit : (doorOf k cell : Door Binary32).exact.maxHeight = (doorOf k cell : Door Binary32).exact.pos.y - 32 := by
    change (doorOf k cell : Door Binary32).maxHeight.value = (doorOf k cell : Door Binary32).pos.y.value - 32
    rw [doorOf_limit_low low, doorOf_y_low low, quarters]
    norm_num
  have same : ((doorOf k cell : Door Binary32).after (roundedQuarters (doorOf k cell : Door Binary32).pos.y) events).exact =
      (doorOf k cell : Door Binary32).exact.after (quarters (doorOf k cell : Door Binary32).exact.pos.y) events := by
    have height := roundedQuarters_low (k := k) low (Nat.min_le_left 128 (openTicks k events))
    rw [← doorOf_y_low (k := k) low] at height
    exact congrArg (fun y => ({ (doorOf k cell : Door Binary32).exact with
      isOpen := lastState k events, pos := ⟨(doorOf k cell : Door Binary32).pos.x.value, y⟩ } : Door Rat)) height
  rw [same]
  exact after_history limit events

theorem history_of_unopened {events : List WorldEvent} (unopened : openTicks k events = 0) :
    DoorHistory (doorOf k cell : Door Binary32).exact events
      ((doorOf k cell : Door Binary32).after (roundedQuarters (doorOf k cell : Door Binary32).pos.y) events).exact := by
  have stays : ((doorOf k cell : Door Binary32).after (roundedQuarters (doorOf k cell : Door Binary32).pos.y) events).pos.y =
      (doorOf k cell : Door Binary32).pos.y := by
    change roundedQuarters _ (min 128 (openTicks k events)) = _
    rw [unopened]
    exact roundedQuarters_zero _
  have below : (doorOf k cell : Door Binary32).maxHeight.value ≤ (doorOf k cell : Door Binary32).pos.y.value :=
    (doorOf k cell : Door Binary32).pos.y.held.roundBinary_le (by decide)
      (sub_le_self _ (by
        rw [show (ofInt 32 : Binary32).value = 32 from
          Binary32.ofRat_value (representable_intCast (n := 32) (by decide))]
        norm_num))
  refine ⟨rfl, rfl, rfl, ?_, ?_, ?_⟩
  · change Binary32.value _ = (doorOf k cell : Door Binary32).pos.y.value - (min 128 (openTicks k events) : Nat) / 4
    rw [stays, unopened]
    norm_num
  · change (doorOf k cell : Door Binary32).maxHeight.value ≤ Binary32.value _
    rw [stays]
    exact below
  · change Binary32.value _ ≤ _
    rw [stays]
    exact le_refl _

end

theorem exists_first_openTick {doorId : Int} {events : List WorldEvent} (opened : openTicks doorId events ≠ 0) :
    ∃ front back, front ++ back = events ∧ openTicks doorId front = 1 := by
  induction events using List.reverseRecOn with
  | nil => exact absurd rfl opened
  | append_singleton events event ih =>
    by_cases before : openTicks doorId events = 0
    · refine ⟨events ++ [event], [], List.append_nil _, ?_⟩
      rw [openTicks_concat, before] at opened ⊢
      split at opened
      · rw [if_pos (by assumption)]
      · exact absurd rfl opened
    · obtain ⟨front, back, rfl, once⟩ := ih before
      exact ⟨front, back ++ [event], (List.append_assoc ..).symm, once⟩

section
variable {loads : Bytes → Bool} {file : Option Json} {stored : LoadedConfig} {config : LevelConfig}
variable {loaded : LoadedMap Binary32} (parsed : loadLevelFile file = .ok (some stored)) (read : stored.read = .ok config)
variable (mapped : getMap loads file = .ok (some loaded))
include parsed read mapped

/-- A door behind its first open tick is not where the quarter would put it. -/
theorem low_of_followsEvents {frame : Int} {events : List WorldEvent} (follows : FollowsEvents loaded frame events)
    {k : Nat} {cell : Nat × Nat × Int} (found : (doorCells config.objects config.layout.cells)[k]? = some cell)
    (opened : openTicks k events ≠ 0) : cell.1 ≤ 131072 := by
  by_contra deep
  obtain ⟨n, height, high⟩ := deep_height (Nat.lt_of_not_le deep)
  obtain ⟨front, back, whole, once⟩ := exists_first_openTick opened
  obtain ⟨world, -, histories⟩ := follows.histories front back whole
  obtain ⟨index, placed⟩ := (getMap_doorAt_iff parsed read mapped).mpr ⟨k, cell, found, rfl⟩
  have related := histories index
  rw [placed] at related
  cases now : world.manager.doorAt index with
  | none =>
    rw [now] at related
    cases related
  | some door =>
    rw [now] at related
    cases related with
    | some history =>
      have y : door.pos.y.value = (doorOf k cell : Door Binary32).pos.y.value - (min 128 (openTicks k front) : Nat) / 4 :=
        history.y
      rw [once, doorOf_y, height] at y
      have held := door.pos.y.held
      rw [y] at held
      exact not_representable_quarter high (by simpa using held)

theorem histories_of_low (player : HoldsPlayer loaded.manager) (frame : Int) {events : List WorldEvent}
    (low : ∀ (k : Nat) cell, (doorCells config.objects config.layout.cells)[k]? = some cell →
      openTicks k events ≠ 0 → cell.1 ≤ 131072) :
    ∃ world, run worldStep (loaded.world frame) events = .ok world ∧
      ∀ index, Option.Rel (fun start door => DoorHistory start.exact events door.exact)
        (loaded.manager.doorAt index) (world.manager.doorAt index) := by
  obtain ⟨closed, distinct⟩ := getMap_numbered mapped
  have updatable : Updatable (loaded.world frame).manager := loaded_updatable mapped player
  have climbs (index : Nat) (door : Door Binary32) (found : loaded.manager.doorAt index = some door) :
      Climbs door (roundedQuarters door.pos.y) (openTicks door.id events) ∧
        DoorHistory door.exact events (door.after (roundedQuarters door.pos.y) events).exact := by
    obtain ⟨k, cell, there, rfl⟩ := (getMap_doorAt_iff parsed read mapped).mp ⟨index, found⟩
    by_cases unopened : openTicks k events = 0
    · refine ⟨?_, history_of_unopened unopened⟩
      rw [show openTicks (doorOf k cell : Door Binary32).id events = 0 from unopened]
      exact climbs_of_unopened
    · exact ⟨climbs_of_low (low k cell there unopened) _, history_of_low (low k cell there unopened) events⟩
  obtain ⟨world, reached, -, doors⟩ := run_doorAt (fun door => roundedQuarters door.pos.y) updatable closed distinct events
    fun index door found => (climbs index door found).1
  refine ⟨world, reached, fun index => ?_⟩
  rw [doors index]
  cases found : loaded.manager.doorAt index with
  | none =>
    rw [show (loaded.world frame).manager.doorAt index = none from found]
    exact .none
  | some door =>
    rw [show (loaded.world frame).manager.doorAt index = some door from found]
    exact .some (climbs index door found).2

/-- The doors of a level follow the events of a run exactly where each that is open at a tick
lies in a row down to 131072. -/
theorem followsEvents_iff (player : HoldsPlayer loaded.manager) (frame : Int) (events : List WorldEvent) :
    FollowsEvents loaded frame events ↔ ∀ (k : Nat) cell,
      (doorCells config.objects config.layout.cells)[k]? = some cell → openTicks k events ≠ 0 → cell.1 ≤ 131072 := by
  constructor
  · intro follows k cell found opened
    exact low_of_followsEvents parsed read mapped follows found opened
  · intro low
    have fewer (front back : List WorldEvent) (whole : front ++ back = events) (k : Nat) (cell : Nat × Nat × Int)
        (found : (doorCells config.objects config.layout.cells)[k]? = some cell) (opened : openTicks k front ≠ 0) :
        cell.1 ≤ 131072 :=
      low k cell found fun never => opened (Nat.le_zero.mp (never ▸ whole ▸ openTicks_le_append k front back))
    have histories (front back : List WorldEvent) (whole : front ++ back = events) :=
      histories_of_low parsed read mapped player frame (fewer front back whole)
    refine ⟨histories, ?_⟩
    rintro front middle back earlier later index before door whole early late was now
    obtain ⟨_, reached, first⟩ := histories front (middle ++ back) (by rw [← whole, List.append_assoc])
    obtain ⟨_, alsoReached, second⟩ := histories (front ++ middle) back whole
    cases early.symm.trans reached
    cases late.symm.trans alsoReached
    have one := first index
    have other := second index
    rw [was] at one
    rw [now] at other
    generalize loaded.manager.doorAt index = placed at one other
    cases one with
    | some history =>
      cases other with
      | some next => exact history.antitone next

end

def deepDoor : MapLayout :=
  Grid.ofFn 131074 1 fun r _ => if r = 0 then 1 else if r = 131073 then 2 else 0

theorem deepDoor_doorCells : (doorCells gridObjects deepDoor.cells)[0]? = some (131073, 0, 2) := by
  have each (cell : Nat × Nat × Int) (member : cell ∈ doorCells gridObjects deepDoor.cells) : cell = (131073, 0, 2) := by
    obtain ⟨r, c, value⟩ := cell
    obtain ⟨listed, isDoor⟩ := List.mem_filter.mp member
    have found := Grid.mem_cells.mp listed
    rw [deepDoor, Grid.get?_ofFn] at found
    split at found
    · rename_i inside
      cases found
      obtain rfl : c = 0 := Nat.lt_one_iff.mp inside.2
      by_cases top : r = 0
      · subst top
        exact absurd isDoor (by decide)
      · by_cases bottom : r = 131073
        · subst bottom
          rfl
        · simp only [top, bottom, if_false] at isDoor
          exact absurd isDoor (by decide)
    · cases found
  have listed : ((131073, 0, 2) : Nat × Nat × Int) ∈ doorCells gridObjects deepDoor.cells := by
    refine List.mem_filter.mpr ⟨Grid.mem_cells.mpr ?_, by decide⟩
    rw [deepDoor, Grid.get?_ofFn]
    rfl
  cases cells : doorCells gridObjects deepDoor.cells with
  | nil =>
    rw [cells] at listed
    cases listed
  | cons first rest => rw [List.getElem?_cons_zero, each first (cells ▸ List.mem_cons_self ..)]

/-- It is opened and does not rise. -/
theorem deepDoor_not_followsEvents : ∃ loaded : LoadedMap Binary32,
    getMap (fun _ => true) (some (gridLevel deepDoor.data deepDoor.cols)) = .ok (some loaded) ∧
      HoldsPlayer loaded.manager ∧
      ¬ FollowsEvents loaded 0 [.doorMessage 0 1, .tick ⟨false, false, false, false⟩] := by
  obtain ⟨loaded, mapped⟩ := getMap_gridLevel (K := Binary32) deepDoor
  have parsed := loadLevelFile_gridLevel deepDoor
  have read := LoadedConfig.read_ofConfig (gridConfig deepDoor)
  have player : HasPlayer (gridConfig deepDoor) :=
    ⟨0, 0, 1, (Grid.get?_ofFn 131074 1 _ 0 0).trans rfl, by change spawnOf gridObjects 1 = _; decide⟩
  refine ⟨loaded, mapped, getMap_holds (.inr ⟨_, _, parsed, read, player⟩) mapped, fun follows => ?_⟩
  have low := low_of_followsEvents parsed read mapped follows (k := 0) deepDoor_doorCells (by decide)
  exact absurd low (by decide)

/-- A door that is opened, lifted and closed again. -/
theorem openedDoor_followsEvents_iff : ∃ stored config, ∃ loaded : LoadedMap Binary32,
    loadLevelFile (some (gridLevel [[0, 0], [1, 2], [4, 4]] 2)) = .ok (some stored) ∧ stored.read = .ok config ∧
      getMap (fun _ => true) (some (gridLevel [[0, 0], [1, 2], [4, 4]] 2)) = .ok (some loaded) ∧
      (FollowsEvents loaded 0 [.doorMessage 0 1, .tick ⟨false, false, false, false⟩, .doorMessage 0 0] ↔
        ∀ (k : Nat) cell, (doorCells config.objects config.layout.cells)[k]? = some cell →
          openTicks k [.doorMessage 0 1, .tick ⟨false, false, false, false⟩, .doorMessage 0 0] ≠ 0 →
          cell.1 ≤ 131072) := by
  have checks : succeedsWith (fun answer : Option (LoadedMap Binary32) => ∃ loaded ∈ answer,
      succeedsWith (fun _ => True) loaded.manager.player = true)
      (getMap (fun _ => true) (some (gridLevel [[0, 0], [1, 2], [4, 4]] 2))) = true := by
    decide +kernel
  obtain ⟨answer, mapped, loaded, rfl, hasPlayer⟩ := exists_ok_of_succeedsWith checks
  obtain ⟨self, found, -⟩ := exists_ok_of_succeedsWith hasPlayer
  exact ⟨_, _, loaded, rfl, rfl, mapped, followsEvents_iff rfl rfl mapped (holds_of_player_ok found) 0 _⟩

end Trigger.Engine
