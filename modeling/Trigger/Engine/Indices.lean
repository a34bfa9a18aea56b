import Trigger.Config.Loader
import Trigger.Engine.Frames
import Trigger.Engine.Roster

/-! Which levels keep their ids within the tables they index.

The ids of the objects index the object table and the textures, and the cells of the
map index the textures, directly or through the entities they become. No check
stands between the file and the tables.
-/

set_option autoImplicit false

namespace Trigger.Engine
open Foundation Config

variable {K : Type}

/-! ## The property -/

/-- All that is drawn of a level selects its textures within the table. -/
def DrawsInRange (textures : TextureManager) (world : World K) : Prop :=
  (∃ tiles, drawMap textures world.map = .ok tiles) ∧
    ∃ drawn, drawAllEntities textures world.manager = .ok drawn

/-- The level is loaded within its tables, and drawn within them in whatever state it is. -/
def PlaysInRange [Scalar K] (loads : Bytes → Bool) (file : Option Json) : Prop :=
  ∃ level : LoadedMap K, getMap loads file = .ok (some level) ∧
    ∀ frame events world, run worldStep (level.world frame) events = .ok world → DrawsInRange level.textures world

/-- Every id is a position in the object table and in the texture table, and every cell
a position in the texture table. -/
structure IndexSafe (config : LevelConfig) : Prop where
  objects : ∀ object ∈ config.objects,
    0 ≤ object.id ∧ object.id < config.countObjects ∧ object.id < maxTextures
  cells : ∀ r c value, config.layout.get? r c = some value → 0 ≤ value ∧ value < maxTextures

theorem textureIndex_ok_iff {id : Int} : (∃ slot, textureIndex id = .ok slot) ↔ 0 ≤ id ∧ id < maxTextures := by
  unfold textureIndex
  split
  · rename_i range
    exact ⟨fun _ => ⟨range.1, by omega⟩, fun _ => ⟨_, rfl⟩⟩
  · rename_i outside
    constructor
    · rintro ⟨slot, absurd⟩
      cases absurd
    · exact fun range => absurd ⟨range.1, by omega⟩ outside

theorem objectAt_ok_iff {objects : List ObjectConfig} {id : Int} :
    (∃ object, objectAt objects id = .ok object) ↔ 0 ≤ id ∧ id < objects.length := by
  unfold objectAt
  by_cases positive : 0 ≤ id
  · rw [if_pos positive]
    cases found : objects[id.toNat]? with
    | none =>
      have outside := List.getElem?_eq_none_iff.mp found
      simp only [reduceCtorEq, exists_false, false_iff, not_and]
      omega
    | some object =>
      have inside := (List.getElem?_eq_some_iff.mp found).1
      simp only [Except.ok.injEq, exists_eq', true_iff]
      omega
  · rw [if_neg positive]
    simp [positive]

theorem initTexture_ok_iff {loads : Bytes → Bool} {objects : List ObjectConfig} {manager : TextureManager}
    {object : ObjectConfig} : (∃ next, initTexture loads objects manager object = .ok next) ↔
      0 ≤ object.id ∧ object.id < objects.length ∧ object.id < maxTextures := by
  have both : (∃ next, initTexture loads objects manager object = .ok next) ↔
      (∃ named, objectAt objects object.id = .ok named) ∧ ∃ slot, textureIndex object.id = .ok slot := by
    unfold initTexture
    simp only [bind_ok_iff]
    constructor
    · rintro ⟨next, named, found, slot, index, -⟩
      exact ⟨⟨named, found⟩, slot, index⟩
    · rintro ⟨⟨named, found⟩, slot, index⟩
      -- The three ways on differ in what they store only.
      by_cases empty : named.texture.val = []
      · exact ⟨_, named, found, slot, index, if_pos empty⟩
      · by_cases readable : loads named.texture.val = true
        · exact ⟨_, named, found, slot, index, (if_neg empty).trans (if_pos readable)⟩
        · exact ⟨_, named, found, slot, index, (if_neg empty).trans (if_neg readable)⟩
  rw [both, objectAt_ok_iff, textureIndex_ok_iff]
  constructor
  · exact fun ⟨⟨low, high⟩, _, most⟩ => ⟨low, high, most⟩
  · exact fun ⟨low, high, most⟩ => ⟨⟨low, high⟩, low, most⟩

theorem initTextureManager_ok_iff (loads : Bytes → Bool) {objects : List ObjectConfig} :
    (∃ textures, initTextureManager loads objects = .ok textures) ↔
      ∀ object ∈ objects, 0 ≤ object.id ∧ object.id < objects.length ∧ object.id < maxTextures := by
  have each (manager : TextureManager) (object : ObjectConfig) (_ : object ∈ objects) :
      (∃ next, initTexture loads objects manager object = .ok next) ↔
        0 ≤ object.id ∧ object.id < objects.length ∧ object.id < maxTextures := initTexture_ok_iff
  exact foldlM_succeeds_iff each clearedTextures

/-- There is a slot for the next entity once the array was doubled. -/
def HasRoom (manager : EntityManager K) : Prop := 0 < manager.capacity ∧ manager.count ≤ manager.capacity

theorem createEntity_room {manager : EntityManager K} (room : HasRoom manager) (data : EntityData K) :
    ∃ next, createEntity manager data = .ok next ∧ HasRoom next := by
  obtain ⟨positive, fits⟩ := room
  unfold createEntity
  dsimp only
  have free : manager.count < if manager.count ≥ manager.capacity then manager.capacity * 2 else manager.capacity := by
    split <;> omega
  refine ⟨_, if_pos free, ?_, ?_⟩
  · exact Nat.zero_lt_of_lt free
  · simpa [EntityManager.count, Nat.succ_le_iff] using free

theorem spawnEntities_succeeds [Scalar K] (config : LevelConfig) :
    ∃ spawning : Spawning K, spawnEntities config = .ok spawning := by
  have step (spawning : Spawning K) (cell : Nat × Nat × Int) (room : HasRoom spawning.manager) :
      ∃ next, spawnCell config.objects spawning cell = .ok next ∧ HasRoom next.manager := by
    cases kind : spawnOf config.objects cell.2.2 with
    | none => exact ⟨spawning, by simp only [spawnCell, kind], room⟩
    | some what =>
      simp only [spawnCell, kind]
      cases what with
      | player =>
        have roomAfter : HasRoom { spawning.manager with playerIdx := some spawning.manager.count } := room
        obtain ⟨next, created, left⟩ := createEntity_room roomAfter
          (.player (createPlayer (cellPos cell.1 cell.2.1) cell.2.2))
        exact ⟨_, bind_ok_iff.mpr ⟨next, created, rfl⟩, left⟩
      | door =>
        obtain ⟨next, created, left⟩ := createEntity_room room
          (.door (createDoor (cellPos cell.1 cell.2.1) spawning.doorId cell.2.2))
        exact ⟨_, bind_ok_iff.mpr ⟨next, created, rfl⟩, left⟩
  have initial : HasRoom (createEntityManager 10 : EntityManager K) := ⟨Nat.succ_pos 9, Nat.zero_le 10⟩
  rw [spawnEntities, foldlM_eq_run]
  obtain ⟨spawning, spawned, -⟩ := run_completes (fun spawning : Spawning K => HasRoom spawning.manager) step
    (show HasRoom (⟨createEntityManager 10, 0⟩ : Spawning K).manager from initial) config.layout.cells
  exact ⟨spawning, spawned⟩

theorem getMap_ok_iff [Scalar K] {loads : Bytes → Bool} {file : Option Json} {stored : LoadedConfig}
    {config : LevelConfig} (parsed : loadLevelFile file = .ok (some stored)) (read : stored.read = .ok config) :
    (∃ level : LoadedMap K, getMap loads file = .ok (some level)) ↔
      ∀ object ∈ config.objects, 0 ≤ object.id ∧ object.id < config.countObjects ∧ object.id < maxTextures := by
  obtain ⟨spawning, spawned⟩ : ∃ spawning : Spawning K, spawnEntities config = .ok spawning :=
    spawnEntities_succeeds config
  rw [LevelConfig.countObjects, ← initTextureManager_ok_iff loads]
  constructor
  · rintro ⟨level, loaded⟩
    obtain ⟨_, _, _, textures, parsed', read', _, initialised, _⟩ := getMap_parts loaded
    cases parsed.symm.trans parsed'
    cases read.symm.trans read'
    exact ⟨textures, initialised⟩
  · rintro ⟨textures, initialised⟩
    exact ⟨_, bind_ok_iff.mpr ⟨_, parsed, bind_ok_iff.mpr ⟨config, read, bind_ok_iff.mpr ⟨spawning, spawned,
      bind_ok_iff.mpr ⟨textures, initialised, rfl⟩⟩⟩⟩⟩

def EntityData.textureId : EntityData K → Int
  | .player self => self.id
  | .door self => self.textureId

def textureIds (manager : EntityManager K) : List Int := manager.entities.map fun entity => entity.data.textureId

theorem textureAt_ok_iff {textures : TextureManager} {id : Int} :
    (∃ texture, textureAt textures id = .ok texture) ↔ 0 ≤ id ∧ id < maxTextures := by
  rw [← textureIndex_ok_iff]
  simp only [textureAt, map_ok_iff]
  constructor
  · rintro ⟨_, slot, index, _⟩
    exact ⟨slot, index⟩
  · rintro ⟨slot, index⟩
    exact ⟨_, slot, index, rfl⟩

theorem drawEntity_eq (textures : TextureManager) (entity : Entity K) :
    drawEntity textures entity = textureAt textures entity.data.textureId := by
  obtain ⟨data, active⟩ := entity
  cases data <;> rfl

theorem drawMap_ok_iff {textures : TextureManager} {map : MapLayout} :
    (∃ tiles, drawMap textures map = .ok tiles) ↔
      ∀ r c value, map.get? r c = some value → 0 ≤ value ∧ value < maxTextures := by
  rw [drawMap, mapM_succeeds_iff]
  simp only [textureAt_ok_iff]
  constructor
  · exact fun each r c value found => each (r, c, value) (Grid.mem_cells.mpr found)
  · exact fun each cell member => each cell.1 cell.2.1 cell.2.2 (Grid.mem_cells.mp member)

theorem drawAllEntities_succeeds {textures : TextureManager} {manager : EntityManager K}
    (range : ∀ id ∈ textureIds manager, 0 ≤ id ∧ id < maxTextures) :
    ∃ drawn, drawAllEntities textures manager = .ok drawn := by
  refine mapM_succeeds_iff.mpr fun entity member => ?_
  rw [drawEntity_eq, textureAt_ok_iff]
  exact range _ (List.mem_map.mpr ⟨entity, List.mem_of_mem_filter member, rfl⟩)

section
variable [Scalar K] {keys : MoveKeys} {world next : World K}

omit [Scalar K] in
theorem textureIds_setPlayer {manager : EntityManager K} {old self : Player K} (read : manager.player = .ok old)
    (same : self.id = old.id) : textureIds (manager.setPlayer self) = textureIds manager := by
  obtain ⟨index, active, written, found⟩ := player_ok_iff.mp read
  rw [EntityManager.setPlayer, written]
  exact map_setData EntityData.textureId found same

theorem updateDoor_ids (door : Door K) (player : Player K) :
    (updateDoor door player).1.textureId = door.textureId ∧ (updateDoor door player).2.id = player.id := by
  have lifted : door.lift.textureId = door.textureId := by
    unfold Door.lift
    split <;> rfl
  have pushed (playerRect doorRect : Rectangle K) : (player.pushOut playerRect doorRect).id = player.id := by
    unfold Player.pushOut
    dsimp only
    split <;> split <;> split <;> rfl
  unfold updateDoor
  dsimp only
  split
  · exact ⟨lifted, pushed _ _⟩
  · exact ⟨lifted, rfl⟩

theorem updateEntity_textureIds {index : Nat} (taken : updateEntity keys world index = .ok next) :
    textureIds next.manager = textureIds world.manager ∧ next.map = world.map := by
  cases entityUpdated_of_ok taken with
  | player found => exact ⟨map_setData EntityData.textureId found (updatePlayer_id ..), rfl⟩
  | @door self player found read =>
    have middle := setData_player_other (.door (updateDoor self player).1) (playerIdx_ne_of_door found read) read
    refine ⟨(textureIds_setPlayer middle (updateDoor_ids self player).2).trans ?_, rfl⟩
    exact map_setData EntityData.textureId found (updateDoor_ids self player).1
  | skipped _ => exact ⟨rfl, rfl⟩

theorem worldStep_textureIds {event : WorldEvent} (taken : worldStep world event = .ok next) :
    textureIds next.manager = textureIds world.manager ∧ next.map = world.map := by
  cases event with
  | tick keys =>
    refine foldlM_invariant (fun state : World K => textureIds state.manager = textureIds world.manager ∧
      state.map = world.map) (fun state index _ next same step => ?_) ⟨rfl, rfl⟩ taken
    obtain ⟨ids, map⟩ := updateEntity_textureIds step
    exact ⟨ids.trans same.1, map.trans same.2⟩
  | doorMessage doorId state =>
    cases taken
    exact ⟨map_openDoor EntityData.textureId (fun _ _ => rfl) .., rfl⟩

end

theorem run_textureIds [Scalar K] {start world : World K} {events : List WorldEvent}
    (reached : run worldStep start events = .ok world) :
    textureIds world.manager = textureIds start.manager ∧ world.map = start.map := by
  have kept (state : World K) (event : WorldEvent) (next : World K)
      (same : textureIds state.manager = textureIds start.manager ∧ state.map = start.map)
      (taken : worldStep state event = .ok next) :
      textureIds next.manager = textureIds start.manager ∧ next.map = start.map := by
    obtain ⟨ids, map⟩ := worldStep_textureIds taken
    exact ⟨ids.trans same.1, map.trans same.2⟩
  exact run_keeps (fun state => textureIds state.manager = textureIds start.manager ∧ state.map = start.map) kept
    ⟨rfl, rfl⟩ reached

/-- Every entity of a fresh level is drawn with the texture of its cell. -/
theorem spawnEntities_textureIds [Scalar K] {config : LevelConfig} {spawning : Spawning K}
    (spawned : spawnEntities config = .ok spawning) :
    ∀ id ∈ textureIds spawning.manager, ∃ r c, config.layout.get? r c = some id := by
  refine foldlM_invariant (fun state : Spawning K => ∀ id ∈ textureIds state.manager,
    ∃ r c, config.layout.get? r c = some id) (fun state cell member next drawn taken => ?_)
    (fun id absurd => by cases absurd) spawned
  have here := Grid.mem_cells.mp member
  have appended {manager : EntityManager K} {data : EntityData K} (tile : data.textureId = cell.2.2)
      (entities : manager.entities = state.manager.entities ++ [⟨data, true⟩]) :
      ∀ id ∈ textureIds manager, ∃ r c, config.layout.get? r c = some id := by
    rw [textureIds, entities, List.map_append, List.forall_mem_append]
    exact ⟨drawn, List.forall_mem_singleton.mpr ⟨cell.1, cell.2.1, here.trans (congrArg some tile.symm)⟩⟩
  cases cellSpawned_of_ok taken with
  | player _ created => exact appended rfl (createEntity_ok created).1
  | door _ created => exact appended rfl (createEntity_ok created).1
  | plain _ => exact drawn

theorem mem_objects_of_spawns {objects : List ObjectConfig} {tileId : Int} {what : Spawn}
    (spawns : spawnOf objects tileId = some what) : ∃ object ∈ objects, object.id = tileId := by
  obtain ⟨_, before, object, after, rfl, same, _⟩ := spawnOf_eq_some_iff.mp spawns
  exact ⟨object, List.mem_append_right before (List.mem_cons_self ..), same⟩

theorem cells_of_cleared {objects : List ObjectConfig} {layout : MapLayout}
    (ids : ∀ object ∈ objects, 0 ≤ object.id ∧ object.id < maxTextures)
    (cleared : ∀ r c value, (clearSpawned objects layout).get? r c = some value → 0 ≤ value ∧ value < maxTextures) :
    ∀ r c value, layout.get? r c = some value → 0 ≤ value ∧ value < maxTextures := by
  intro r c value found
  cases spawns : spawnOf objects value with
  | some what =>
    obtain ⟨object, member, rfl⟩ := mem_objects_of_spawns spawns
    exact ids object member
  | none => exact cleared r c value (by rw [clearSpawned, Grid.get?_map, found]; simp [spawns])

theorem cleared_of_cells {objects : List ObjectConfig} {layout : MapLayout}
    (cells : ∀ r c value, layout.get? r c = some value → 0 ≤ value ∧ value < maxTextures) :
    ∀ r c value, (clearSpawned objects layout).get? r c = some value → 0 ≤ value ∧ value < maxTextures := by
  intro r c value found
  rw [clearSpawned, Grid.get?_map] at found
  obtain ⟨tileId, stored, rfl⟩ := Option.map_eq_some_iff.mp found
  split
  · exact ⟨le_refl 0, by decide⟩
  · exact cells r c tileId stored

/-- A fully assigned level keeps its indices in range, from its loading on, exactly when
its object ids are positions in both tables and its cells positions in the texture table. -/
theorem playsInRange_iff [Scalar K] (loads : Bytes → Bool) (file : Option Json) {stored : LoadedConfig}
    (parsed : loadLevelFile file = .ok (some stored)) (full : stored.FullyAssigned) :
    ∃ config, stored.read = .ok config ∧ (PlaysInRange (K := K) loads file ↔ IndexSafe config) := by
  obtain ⟨config, read⟩ := full.read
  refine ⟨config, read, ?_, ?_⟩
  · rintro ⟨level, loaded, drawn⟩
    have ids := (getMap_ok_iff parsed read).mp ⟨level, loaded⟩
    obtain ⟨_, _, _, textures, parsed', read', _, _, rfl⟩ := getMap_parts loaded
    cases parsed.symm.trans parsed'
    cases read.symm.trans read'
    have tiles := (drawn 0 [] _ rfl).1
    exact ⟨ids, cells_of_cleared (fun object member => ⟨(ids object member).1, (ids object member).2.2⟩)
      (drawMap_ok_iff.mp tiles)⟩
  · rintro ⟨ids, cells⟩
    obtain ⟨level, loaded⟩ : ∃ level : LoadedMap K, getMap loads file = .ok (some level) :=
      (getMap_ok_iff parsed read).mpr ids
    refine ⟨level, loaded, fun frame events world reached => ?_⟩
    obtain ⟨sameIds, sameMap⟩ := run_textureIds reached
    obtain ⟨_, _, spawning, textures, parsed', read', spawned, _, rfl⟩ := getMap_parts loaded
    cases parsed.symm.trans parsed'
    cases read.symm.trans read'
    constructor
    · rw [sameMap]
      exact drawMap_ok_iff.mpr (cleared_of_cells cells)
    · refine drawAllEntities_succeeds fun id member => ?_
      rw [sameIds] at member
      obtain ⟨r, c, found⟩ := spawnEntities_textureIds spawned id member
      exact cells r c id found

theorem playerLevel_playsInRange_iff :
    ∃ stored, loadLevelFile (some (smallLevel "player")) = .ok (some stored) ∧ ∃ config, stored.read = .ok config ∧
      (PlaysInRange (K := Rat) (fun _ => true) (some (smallLevel "player")) ↔ IndexSafe config) := by
  have objects {first second : LoadedObject} (full : first.FullyAssigned) (also : second.FullyAssigned) :
      ∀ object ∈ [first, second], object.FullyAssigned :=
    List.forall_mem_cons.mpr ⟨full, List.forall_mem_singleton.mpr also⟩
  refine ⟨_, rfl, playsInRange_iff _ _ rfl ⟨objects ⟨rfl, rfl, rfl, rfl⟩ ⟨rfl, rfl, rfl, rfl⟩, ?_⟩⟩
  exact ⟨1, 1, [[some 1]], rfl, by decide, by decide, rfl, by simp⟩

def loneObjectLevel : Json :=
  .object [(text "objects", .array [.object [(text "id", .number 1), (text "name", .string []),
      (text "texture", .string []), (text "entity", .string [])]]),
    (text "map", .object [(text "size", .object [(text "rows", .number 1), (text "cols", .number 1)]),
      (text "data", .array [.array [.number 1]])])]

/-- It is loaded and fully assigned, and its textures are looked up behind the table. -/
theorem loneObjectLevel_out_of_range :
    ∃ stored, loadLevelFile (some loneObjectLevel) = .ok (some stored) ∧ stored.FullyAssigned ∧
      ¬ PlaysInRange (K := Rat) (fun _ => true) (some loneObjectLevel) := by
  refine ⟨_, rfl, ⟨List.forall_mem_singleton.mpr ⟨rfl, rfl, rfl, rfl⟩, 1, 1, [[some 1]], rfl, by decide, by decide, rfl,
    by simp⟩, ?_⟩
  rintro ⟨level, loaded, -⟩
  have stopped : faultOf (getMap (K := Rat) (fun _ => true) (some loneObjectLevel)) = some .outOfBounds := by
    decide +kernel
  rw [loaded] at stopped
  cases stopped

end Trigger.Engine
