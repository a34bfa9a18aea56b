import Trigger.Engine.Indices
import Trigger.Engine.NonPenetration
import Mathlib.Data.List.Induction

/-! The entities `get_map` makes of the cells of a level, their order, and the numbers by
which its doors are found.
-/

set_option autoImplicit false

namespace Trigger.Engine
open Foundation Config

variable {K : Type} [Scalar K]

/-- `find_door_by_id`: the first entity that is a door with this id; none for null. -/
def findDoorById (manager : EntityManager K) (doorId : Int) : Option (Door K) :=
  manager.entities.findSome? fun entity =>
    match entity.data with
    | .door self => if self.id = doorId then some self else none
    | .player _ => none

/-! ## What a level is to contain -/

def spawningCells (objects : List ObjectConfig) (cells : List (Nat × Nat × Int)) : List (Nat × Nat × Int) :=
  cells.filter fun cell => (spawnOf objects cell.2.2).isSome

def doorCells (objects : List ObjectConfig) (cells : List (Nat × Nat × Int)) : List (Nat × Nat × Int) :=
  cells.filter fun cell => spawnOf objects cell.2.2 = some .door

def doorOf (doorId : Nat) (cell : Nat × Nat × Int) : Door K := createDoor (cellPos cell.1 cell.2.1) doorId cell.2.2

inductive SpawnedAs (objects : List ObjectConfig) (doorId : Nat) (cell : Nat × Nat × Int) : Entity K → Prop where
  | player : spawnOf objects cell.2.2 = some .player →
      SpawnedAs objects doorId cell ⟨.player (createPlayer (cellPos cell.1 cell.2.1) cell.2.2), true⟩
  | door : spawnOf objects cell.2.2 = some .door → SpawnedAs objects doorId cell ⟨.door (doorOf doorId cell), true⟩

/-- The entities are those of the spawning cells, one by one; a door is numbered by the
doors before it. -/
structure EntitiesOf (objects : List ObjectConfig) (cells : List (Nat × Nat × Int)) (manager : EntityManager K) : Prop where
  count : manager.count = (spawningCells objects cells).length
  entity : ∀ k cell, (spawningCells objects cells)[k]? = some cell → ∃ entity, manager.entities[k]? = some entity ∧
    SpawnedAs objects (doorCells objects ((spawningCells objects cells).take k)).length cell entity

def EntityData.door? : EntityData K → Option (Door K)
  | .door self => some self
  | .player _ => none

def EntityManager.doors (manager : EntityManager K) : List (Door K) :=
  manager.entities.filterMap fun entity => entity.data.door?

omit [Scalar K] in
theorem findDoorById_eq (manager : EntityManager K) (doorId : Int) :
    findDoorById manager doorId = manager.doors.find? fun door => door.id = doorId := by
  rw [findDoorById, EntityManager.doors]
  induction manager.entities with
  | nil => rfl
  | cons entity rest ih =>
    obtain ⟨data, active⟩ := entity
    cases data with
    | player self => simpa [EntityData.door?] using ih
    | door self => by_cases named : self.id = doorId <;> simp [EntityData.door?, named, ih]

theorem find?_mapIdx {A B : Type} (number : B → Int) {f : Nat → A → B} (numbered : ∀ k a, number (f k a) = k)
    (source : List A) (n : Nat) : (source.mapIdx f).find? (fun b => number b = n) = source[n]?.map (f n) := by
  induction source using List.reverseRecOn with
  | nil => rfl
  | append_singleton front last ih =>
    rw [List.mapIdx_concat, List.find?_append, ih]
    rcases Nat.lt_trichotomy n front.length with earlier | rfl | later
    · simp [List.getElem?_append_left earlier, List.getElem?_eq_getElem earlier]
    · simp [numbered]
    · have apart : (front.length : Int) ≠ n := by omega
      have outside : (front ++ [last])[n]? = none := List.getElem?_eq_none (by rw [List.length_append]; exact later)
      have before : front[n]? = none := List.getElem?_eq_none later.le
      simp [numbered, apart, outside, before]

section
variable {objects : List ObjectConfig} {taken : List (Nat × Nat × Int)} {cell : Nat × Nat × Int}

theorem spawningCells_concat : spawningCells objects (taken ++ [cell]) =
    spawningCells objects taken ++ if (spawnOf objects cell.2.2).isSome then [cell] else [] := by
  rw [spawningCells, List.filter_append, List.filter_singleton, Bool.cond_eq_ite]
  rfl

theorem doorCells_concat : doorCells objects (taken ++ [cell]) =
    doorCells objects taken ++ if spawnOf objects cell.2.2 = some .door then [cell] else [] := by
  rw [doorCells, List.filter_append, List.filter_singleton, Bool.cond_decide]
  rfl

theorem doorCells_spawningCells : doorCells objects (spawningCells objects taken) = doorCells objects taken := by
  rw [doorCells, spawningCells, List.filter_filter]
  refine List.filter_congr fun cell _ => ?_
  cases spawnOf objects cell.2.2 <;> simp

theorem EntitiesOf.concat {manager next : EntityManager K} {data : EntityData K}
    (held : EntitiesOf objects taken manager) (spawns : (spawnOf objects cell.2.2).isSome)
    (created : next.entities = manager.entities ++ [⟨data, true⟩])
    (made : SpawnedAs objects (doorCells objects taken).length cell (⟨data, true⟩ : Entity K)) :
    EntitiesOf objects (taken ++ [cell]) next := by
  have count : manager.entities.length = (spawningCells objects taken).length := held.count
  constructor
  · rw [EntityManager.count, created, spawningCells_concat, if_pos spawns, List.length_append, List.length_append, count]
    rfl
  · intro k other found
    rw [spawningCells_concat, if_pos spawns] at found ⊢
    rw [created]
    rcases Nat.lt_or_ge k (spawningCells objects taken).length with before | last
    · rw [List.getElem?_append_left before] at found
      rw [List.getElem?_append_left (count ▸ before), List.take_append_of_le_length before.le]
      exact held.entity k other found
    · rw [List.getElem?_append_right last, List.getElem?_singleton] at found
      split at found
      · rename_i here
        cases found
        have atEnd : k = (spawningCells objects taken).length := Nat.le_antisymm (Nat.sub_eq_zero_iff_le.mp here) last
        subst atEnd
        refine ⟨⟨data, true⟩, ?_, ?_⟩
        · rw [← count]
          exact List.getElem?_concat_length
        · rw [List.take_left, doorCells_spawningCells]
          exact made
      · cases found

end

structure Scanned (objects : List ObjectConfig) (taken : List (Nat × Nat × Int)) (spawning : Spawning K) : Prop where
  entities : EntitiesOf objects taken spawning.manager
  doorId : spawning.doorId = (doorCells objects taken).length
  doors : spawning.manager.doors = (doorCells objects taken).mapIdx doorOf

omit [Scalar K] in
theorem doors_createEntity {manager next : EntityManager K} {data : EntityData K}
    (created : next.entities = manager.entities ++ [⟨data, true⟩]) :
    next.doors = manager.doors ++ data.door?.toList := by
  rw [EntityManager.doors, EntityManager.doors, created, List.filterMap_append]
  cases data <;> rfl

theorem spawnCell_scanned {objects : List ObjectConfig} {taken : List (Nat × Nat × Int)} {cell : Nat × Nat × Int}
    {spawning next : Spawning K} (scanned : Scanned objects taken spawning)
    (spawned : spawnCell objects spawning cell = .ok next) : Scanned objects (taken ++ [cell]) next := by
  obtain ⟨entities, doorId, doors⟩ := scanned
  cases cellSpawned_of_ok spawned with
  | player kind created =>
    have appended := (createEntity_ok created).1
    have noDoor : ¬ spawnOf objects cell.2.2 = some .door := by simp [kind]
    refine ⟨entities.concat (by simp [kind]) appended (.player kind), ?_, ?_⟩
    · rw [doorCells_concat, if_neg noDoor, List.append_nil]
      exact doorId
    · rw [doorCells_concat, if_neg noDoor, List.append_nil, ← doors, doors_createEntity appended]
      exact List.append_nil _
  | door kind created =>
    have appended := (createEntity_ok created).1
    rw [doorId] at appended
    refine ⟨entities.concat (by simp [kind]) appended (.door kind), ?_, ?_⟩
    · rw [doorCells_concat, if_pos kind, List.length_append, doorId]
      rfl
    · rw [doorCells_concat, if_pos kind, List.mapIdx_concat, ← doors, doors_createEntity appended]
      rfl
  | plain kind =>
    have none : ¬ (spawnOf objects cell.2.2).isSome := by simp [kind]
    have noDoor : ¬ spawnOf objects cell.2.2 = some .door := by simp [kind]
    refine ⟨⟨?_, ?_⟩, ?_, ?_⟩
    · rw [spawningCells_concat, if_neg none, List.append_nil]
      exact entities.count
    · rw [spawningCells_concat, if_neg none, List.append_nil]
      exact entities.entity
    · rw [doorCells_concat, if_neg noDoor, List.append_nil]
      exact doorId
    · rw [doorCells_concat, if_neg noDoor, List.append_nil]
      exact doors

theorem spawnEntities_scanned {config : LevelConfig} {spawning : Spawning K}
    (spawned : spawnEntities config = .ok spawning) : Scanned config.objects config.layout.cells spawning :=
  foldlM_history (Scanned config.objects) (fun _ _ _ _ scanned taken => spawnCell_scanned scanned taken)
    ⟨⟨rfl, nofun⟩, rfl, rfl⟩ spawned

/-- What `get_map` makes of a level: its entities, the doors by their numbers, the player
by its index, and the map without the spawning cells. -/
structure Populated (config : LevelConfig) (manager : EntityManager K) (layout : MapLayout) : Prop where
  entities : EntitiesOf config.objects config.layout.cells manager
  doorById : ∀ n : Nat, findDoorById manager n = (doorCells config.objects config.layout.cells)[n]?.map (doorOf n)
  noDoorById : ∀ doorId < 0, findDoorById manager doorId = none
  player : HasPlayer config → HoldsPlayer manager
  rows : layout.rows = config.layout.rows
  cols : layout.cols = config.layout.cols
  cleared : ∀ i j value, config.layout.get? i j = some value → (spawnOf config.objects value).isSome →
    layout.get? i j = some 0
  unchanged : ∀ i j value, config.layout.get? i j = some value → spawnOf config.objects value = none →
    layout.get? i j = some value

theorem clearSpawned_get? {objects : List ObjectConfig} {layout : MapLayout} {i j : Nat} {value : Int}
    (found : layout.get? i j = some value) :
    (clearSpawned objects layout).get? i j = some (if (spawnOf objects value).isSome then 0 else value) := by
  rw [clearSpawned, Grid.get?_map, found]
  rfl

theorem populated_of_scan {config : LevelConfig} {spawning : Spawning K} (spawned : spawnEntities config = .ok spawning) :
    Populated config spawning.manager (clearSpawned config.objects config.layout) := by
  obtain ⟨entities, _, doors⟩ := spawnEntities_scanned spawned
  constructor
  · exact entities
  · intro n
    rw [findDoorById_eq, doors]
    exact find?_mapIdx Door.id (fun _ _ => rfl) _ n
  · intro doorId negative
    rw [findDoorById_eq, doors, List.find?_eq_none]
    intro door member named
    obtain ⟨k, _, rfl⟩ := List.mem_mapIdx.mp member
    have same : (k : Int) = doorId := of_decide_eq_true named
    omega
  · exact (spawnEntities_holds_iff spawned).mpr
  · exact Grid.rows_map ..
  · exact Grid.cols_map ..
  · intro i j value found spawns
    rw [clearSpawned_get? found, if_pos spawns]
  · intro i j value found plain
    rw [clearSpawned_get? found, if_neg (by simp [plain])]

def gridObjects : List ObjectConfig :=
  [⟨0, emptyString, emptyString, truncated 256 room256 (text "none")⟩,
    ⟨1, emptyString, emptyString, truncated 256 room256 (text "player")⟩,
    ⟨2, emptyString, emptyString, truncated 256 room256 (text "door")⟩]

def gridConfig (layout : MapLayout) : LevelConfig := ⟨emptyString, emptyString, emptyString, gridObjects, layout⟩

theorem loadLevelFile_gridLevel (layout : MapLayout) :
    loadLevelFile (some (gridLevel layout.data layout.cols)) = .ok (some (.ofConfig (gridConfig layout))) := by
  have objects : loadObjects ((gridLevel layout.data layout.cols).getObjectItem (text "objects")) =
      .ok (gridObjects.map .ofConfig) := rfl
  have loaded : loadLevelConfig (gridLevel layout.data layout.cols) = .ok (.ofConfig (gridConfig layout)) :=
    bind_ok_iff.mpr ⟨_, rfl, bind_ok_iff.mpr ⟨_, objects, bind_ok_iff.mpr ⟨_, loadLayout_written layout, rfl⟩⟩⟩
  rw [loadLevelFile, loaded]
  rfl

theorem getMap_gridLevel (layout : MapLayout) :
    ∃ loaded : LoadedMap K, getMap (fun _ => true) (some (gridLevel layout.data layout.cols)) = .ok (some loaded) :=
  (getMap_ok_iff (loadLevelFile_gridLevel layout) (LoadedConfig.read_ofConfig (gridConfig layout))).mpr
    (show ∀ object ∈ gridObjects, 0 ≤ object.id ∧ object.id < gridObjects.length ∧ object.id < maxTextures by decide)

end Trigger.Engine
