import Trigger.Engine.Map
import Trigger.Foundation.Runs

/-! The entity list: where its player is, what the updates keep of it, and what the
scan of a level puts into it.
-/

set_option autoImplicit false

namespace Trigger.Engine
open Foundation Config

variable {K : Type}

/-- The index of the player is written, in range, and names a player. -/
def HoldsPlayer (manager : EntityManager K) : Prop :=
  ∃ index entity self, manager.playerIdx = some index ∧ manager.entities[index]? = some entity ∧
    entity.data = .player self

/-- Some cell spawns a player. -/
def HasPlayer (config : LevelConfig) : Prop :=
  ∃ r c tileId, config.layout.get? r c = some tileId ∧ spawnOf config.objects tileId = some .player

/-- The file is refused, or all of it that the game reads was assigned and it has a player. -/
def Playable (file : Option Json) : Prop :=
  loadLevelFile file = .ok none ∨
    ∃ stored config, loadLevelFile file = .ok (some stored) ∧ stored.read = .ok config ∧ HasPlayer config

def EntityData.isPlayer : EntityData K → Bool
  | .player _ => true
  | .door _ => false

/-- Which entities are players. -/
def kinds (manager : EntityManager K) : List Bool := manager.entities.map fun entity => entity.data.isPlayer

theorem holdsPlayer_iff {manager : EntityManager K} :
    HoldsPlayer manager ↔ ∃ index, manager.playerIdx = some index ∧ (kinds manager)[index]? = some true := by
  refine exists_congr fun index => ?_
  rw [kinds, List.getElem?_map]
  constructor
  · rintro ⟨entity, self, written, found, isPlayer⟩
    exact ⟨written, by simp [found, isPlayer, EntityData.isPlayer]⟩
  · rintro ⟨written, kind⟩
    obtain ⟨entity, found, isPlayer⟩ := Option.map_eq_some_iff.mp kind
    cases data : entity.data with
    | player self => exact ⟨entity, self, written, found, data⟩
    | door self => simp [data, EntityData.isPlayer] at isPlayer

theorem player_ok_of_holds {manager : EntityManager K} (holds : HoldsPlayer manager) :
    ∃ self, manager.player = .ok self := by
  obtain ⟨index, ⟨data, active⟩, self, written, found, rfl⟩ := holds
  exact ⟨self, by simp [EntityManager.player, written, found]⟩

theorem holds_of_player_ok {manager : EntityManager K} {self : Player K} (read : manager.player = .ok self) :
    HoldsPlayer manager := by
  unfold EntityManager.player at read
  split at read
  · rename_i _ active found
    obtain ⟨index, written, stored⟩ := Option.bind_eq_some_iff.mp found
    exact ⟨index, _, _, written, stored, rfl⟩
  · cases read

def SameKinds (before after : EntityManager K) : Prop :=
  kinds after = kinds before ∧ after.playerIdx = before.playerIdx

theorem SameKinds.holds {before after : EntityManager K} (same : SameKinds before after)
    (holds : HoldsPlayer before) : HoldsPlayer after := by
  rw [holdsPlayer_iff] at holds ⊢
  rw [same.1, same.2]
  exact holds

theorem map_setData {B : Type} (part : EntityData K → B) {manager : EntityManager K} {index : Nat}
    {entity : Entity K} {data : EntityData K} (found : manager.entities[index]? = some entity)
    (same : part data = part entity.data) :
    (manager.setData index data).entities.map (fun entity => part entity.data) =
      manager.entities.map fun entity => part entity.data := by
  refine List.ext_getElem? fun other => ?_
  rw [List.getElem?_map, List.getElem?_map, EntityManager.setData, List.getElem?_modify]
  by_cases here : index = other
  · subst here
    simp [found, same]
  · simp [here]

theorem sameKinds_setData {manager : EntityManager K} {index : Nat} {entity : Entity K} {data : EntityData K}
    (found : manager.entities[index]? = some entity) (kind : data.isPlayer = entity.data.isPlayer) :
    SameKinds manager (manager.setData index data) :=
  ⟨map_setData EntityData.isPlayer found kind, rfl⟩

theorem sameKinds_setPlayer {manager : EntityManager K} (holds : HoldsPlayer manager) (self : Player K) :
    SameKinds manager (manager.setPlayer self) := by
  obtain ⟨index, entity, old, written, found, isPlayer⟩ := holds
  rw [EntityManager.setPlayer, written]
  exact sameKinds_setData found (by rw [isPlayer]; rfl)

theorem updateEntity_sameKinds [Scalar K] (keys : MoveKeys) {world : World K}
    (holds : HoldsPlayer world.manager) (index : Nat) :
    ∃ next, updateEntity keys world index = .ok next ∧ SameKinds world.manager next.manager := by
  unfold updateEntity
  split
  · rename_i self found
    exact ⟨_, rfl, sameKinds_setData found rfl⟩
  · rename_i self found
    obtain ⟨player, read⟩ := player_ok_of_holds holds
    have door : SameKinds world.manager (world.manager.setData index (.door (updateDoor self player).1)) :=
      sameKinds_setData found rfl
    have moved := sameKinds_setPlayer (door.holds holds) (updateDoor self player).2
    exact ⟨_, bind_ok_iff.mpr ⟨player, read, rfl⟩, moved.1.trans door.1, moved.2.trans door.2⟩
  · exact ⟨world, rfl, rfl, rfl⟩

theorem updateAllEntities_holds [Scalar K] (keys : MoveKeys) (world : World K)
    (holds : HoldsPlayer world.manager) :
    ∃ next, updateAllEntities keys world = .ok next ∧ HoldsPlayer next.manager := by
  have step (world : World K) (index : Nat) (holds : HoldsPlayer world.manager) :
      ∃ next, updateEntity keys world index = .ok next ∧ HoldsPlayer next.manager := by
    obtain ⟨next, taken, same⟩ := updateEntity_sameKinds keys holds index
    exact ⟨next, taken, same.holds holds⟩
  rw [updateAllEntities, foldlM_eq_run]
  exact run_completes (fun world : World K => HoldsPlayer world.manager) step holds _

theorem map_openDoor {B : Type} (part : EntityData K → B)
    (same : ∀ (door : Door K) state, part (.door { door with isOpen := state }) = part (.door door))
    (manager : EntityManager K) (doorId state : Int) :
    (openDoor manager doorId state).entities.map (fun entity => part entity.data) =
      manager.entities.map fun entity => part entity.data := by
  unfold openDoor
  dsimp only
  split
  · rfl
  · refine List.ext_getElem? fun other => ?_
    rw [List.getElem?_map, List.getElem?_map, List.getElem?_modify]
    cases manager.entities[other]? with
    | none => rfl
    | some entity =>
      obtain ⟨data, active⟩ := entity
      cases data with
      | player self => simp
      | door self =>
        simp only [Option.map_some]
        split
        · exact congrArg some (same self state)
        · rfl

theorem openDoor_sameKinds (manager : EntityManager K) (doorId state : Int) :
    SameKinds manager (openDoor manager doorId state) := by
  refine ⟨map_openDoor EntityData.isPlayer (fun _ _ => rfl) manager doorId state, ?_⟩
  unfold openDoor
  dsimp only
  split <;> rfl

theorem player_ok_iff {manager : EntityManager K} {self : Player K} :
    manager.player = .ok self ↔ ∃ index active, manager.playerIdx = some index ∧
      manager.entities[index]? = some ⟨.player self, active⟩ := by
  constructor
  · intro read
    unfold EntityManager.player at read
    split at read
    · rename_i old active found
      obtain ⟨index, written, stored⟩ := Option.bind_eq_some_iff.mp found
      cases read
      exact ⟨index, active, written, stored⟩
    · cases read
  · rintro ⟨index, active, written, found⟩
    simp [EntityManager.player, written, found]

def EntityManager.doorAt (manager : EntityManager K) (index : Nat) : Option (Door K) :=
  match manager.entities[index]? with
  | some ⟨.door self, _⟩ => some self
  | _ => none

section
variable {manager : EntityManager K} {index : Nat} {data : EntityData K} {self old : Player K} {active : Bool}

theorem getElem?_setData (other : Nat) : (manager.setData index data).entities[other]? =
    if index = other then manager.entities[other]?.map (fun entity => { entity with data }) else
      manager.entities[other]? := by
  rw [EntityManager.setData, List.getElem?_modify]
  split <;> simp

theorem count_setData : (manager.setData index data).count = manager.count := List.length_modify ..

theorem active_setData (live : ∀ entity ∈ manager.entities, entity.active = true) :
    ∀ entity ∈ (manager.setData index data).entities, entity.active = true := by
  intro entity member
  obtain ⟨other, found⟩ := List.mem_iff_getElem?.mp member
  rw [getElem?_setData] at found
  split at found
  · obtain ⟨before, stored, rfl⟩ := Option.map_eq_some_iff.mp found
    exact live before (List.mem_of_getElem? stored)
  · exact live entity (List.mem_of_getElem? found)

theorem setData_player (written : manager.playerIdx = some index)
    (found : manager.entities[index]? = some ⟨.player old, active⟩) :
    (manager.setData index (.player self)).player = .ok self :=
  player_ok_iff.mpr ⟨index, active, written, by simp [getElem?_setData, found]⟩

theorem setData_player_other (data : EntityData K) (other : manager.playerIdx ≠ some index) (read : manager.player = .ok self) :
    (manager.setData index data).player = .ok self := by
  obtain ⟨here, active, written, found⟩ := player_ok_iff.mp read
  have apart : index ≠ here := fun same => other (same ▸ written)
  exact player_ok_iff.mpr ⟨here, active, written, by simp [getElem?_setData, apart, found]⟩

theorem setPlayer_player (read : manager.player = .ok old) : (manager.setPlayer self).player = .ok self := by
  obtain ⟨here, active, written, found⟩ := player_ok_iff.mp read
  rw [EntityManager.setPlayer, written]
  exact setData_player written found

theorem doorAt_setData_player (self : Player K) (found : manager.entities[index]? = some ⟨.player old, active⟩)
    (other : Nat) :
    (manager.setData index (.player self)).doorAt other = manager.doorAt other := by
  rw [EntityManager.doorAt, EntityManager.doorAt, getElem?_setData]
  by_cases here : index = other
  · subst here
    simp [found]
  · rw [if_neg here]

theorem count_setPlayer : (manager.setPlayer self).count = manager.count := by
  unfold EntityManager.setPlayer
  split
  · exact count_setData
  · rfl

theorem active_setPlayer (live : ∀ entity ∈ manager.entities, entity.active = true) :
    ∀ entity ∈ (manager.setPlayer self).entities, entity.active = true := by
  unfold EntityManager.setPlayer
  split
  · exact active_setData live
  · exact live

theorem doorAt_setPlayer (self : Player K) (read : manager.player = .ok old) (other : Nat) :
    (manager.setPlayer self).doorAt other = manager.doorAt other := by
  obtain ⟨here, active, written, found⟩ := player_ok_iff.mp read
  rw [EntityManager.setPlayer, written]
  exact doorAt_setData_player self found other

theorem doorAt_setData_door {door : Door K} {before : Entity K} (found : manager.entities[index]? = some before)
    (other : Nat) : (manager.setData index (.door door)).doorAt other =
      if index = other then some door else manager.doorAt other := by
  rw [EntityManager.doorAt, EntityManager.doorAt, getElem?_setData]
  by_cases here : index = other
  · subst here
    simp [found]
  · rw [if_neg here, if_neg here]

end

section
variable {manager : EntityManager K} {index : Nat} {old : Door K} {active : Bool} {player : Player K}

theorem playerIdx_ne_of_door (found : manager.entities[index]? = some ⟨.door old, active⟩)
    (read : manager.player = .ok player) : manager.playerIdx ≠ some index := by
  intro main
  simp [EntityManager.player, main, found] at read

/-- Behind the turn of a door the only player that may have changed is the one it read. -/
theorem player_updateDoor (found : manager.entities[index]? = some ⟨.door old, active⟩) (read : manager.player = .ok player)
    {door : Door K} {self other : Player K} {slot : Nat} {running : Bool}
    (stored : ((manager.setData index (.door door)).setPlayer self).entities[slot]? = some ⟨.player other, running⟩) :
    (manager.playerIdx = some slot ∧ manager.entities[slot]? = some ⟨.player player, running⟩ ∧ other = self) ∨
      manager.entities[slot]? = some ⟨.player other, running⟩ := by
  obtain ⟨main, mainActive, written, mainFound⟩ := player_ok_iff.mp read
  have apart : index ≠ main := by
    rintro rfl
    rw [found] at mainFound
    cases mainFound
  have written' : (manager.setData index (.door door)).playerIdx = some main := written
  rw [EntityManager.setPlayer, written'] at stored
  simp only [getElem?_setData] at stored
  by_cases here : main = slot
  · subst here
    rw [if_pos rfl, if_neg apart, mainFound, Option.map_some] at stored
    cases stored
    exact .inl ⟨written, mainFound, rfl⟩
  · rw [if_neg here] at stored
    split at stored
    · obtain ⟨before, _, same⟩ := Option.map_eq_some_iff.mp stored
      cases congrArg Entity.data same
    · exact .inr stored

theorem doorAt_updateDoor (found : manager.entities[index]? = some ⟨.door old, active⟩)
    (read : manager.player = .ok player) (door : Door K) (self : Player K) (other : Nat) :
    ((manager.setData index (.door door)).setPlayer self).doorAt other =
      if index = other then some door else manager.doorAt other := by
  have middle := setData_player_other (.door door) (playerIdx_ne_of_door found read) read
  rw [doorAt_setPlayer self middle, doorAt_setData_door found]

end

/-- The ways through the update of one entity. -/
inductive EntityUpdated [Scalar K] (keys : MoveKeys) (world : World K) (index : Nat) : World K → Prop where
  | player {self : Player K} : world.manager.entities[index]? = some ⟨.player self, true⟩ →
      EntityUpdated keys world index { world with
        manager := world.manager.setData index (.player (updatePlayer world.map keys world.frame self).player)
        frame := (updatePlayer world.map keys world.frame self).frame
        ended := world.ended || (updatePlayer world.map keys world.frame self).ended }
  | door {self : Door K} {player : Player K} : world.manager.entities[index]? = some ⟨.door self, true⟩ →
      world.manager.player = .ok player →
      EntityUpdated keys world index { world with
        manager := (world.manager.setData index (.door (updateDoor self player).1)).setPlayer
          (updateDoor self player).2 }
  | skipped : (∀ entity, world.manager.entities[index]? = some entity → entity.active = false) →
      EntityUpdated keys world index world

theorem entityUpdated_of_ok [Scalar K] {keys : MoveKeys} {world next : World K} {index : Nat}
    (result : updateEntity keys world index = .ok next) : EntityUpdated keys world index next := by
  unfold updateEntity at result
  split at result
  · rename_i self found
    cases result
    exact .player found
  · rename_i self found
    obtain ⟨player, read, same⟩ := bind_ok_iff.mp result
    cases same
    exact .door found read
  · rename_i noPlayer noDoor
    cases result
    refine .skipped fun entity found => ?_
    obtain ⟨data, active⟩ := entity
    cases active with
    | false => rfl
    | true => cases data with
      | player self => exact absurd found (noPlayer self)
      | door self => exact absurd found (noDoor self)

theorem openDoor_getElem? (manager : EntityManager K) (doorId state : Int) (index : Nat) :
    (openDoor manager doorId state).entities[index]? = manager.entities[index]? ∨
      ∃ door active, manager.entities[index]? = some ⟨.door door, active⟩ ∧
        (openDoor manager doorId state).entities[index]? =
          some ⟨.door { door with isOpen := state }, active⟩ := by
  unfold openDoor
  dsimp only
  split
  · exact .inl rfl
  · rename_i target _
    rw [List.getElem?_modify]
    cases found : manager.entities[index]? with
    | none => exact .inl rfl
    | some entity =>
      obtain ⟨data, active⟩ := entity
      by_cases here : target = index
      · cases data with
        | player self => exact .inl (by simp)
        | door door => exact .inr ⟨door, active, rfl, by simp [here]⟩
      · exact .inl (by simp [here])

section
variable {manager : EntityManager K} {doorId state : Int}

theorem count_openDoor : (openDoor manager doorId state).count = manager.count := by
  unfold openDoor
  dsimp only
  split
  · rfl
  · exact List.length_modify ..

theorem playerIdx_openDoor : (openDoor manager doorId state).playerIdx = manager.playerIdx :=
  (openDoor_sameKinds manager doorId state).2

theorem active_openDoor (live : ∀ entity ∈ manager.entities, entity.active = true) :
    ∀ entity ∈ (openDoor manager doorId state).entities, entity.active = true := by
  intro entity member
  obtain ⟨index, found⟩ := List.mem_iff_getElem?.mp member
  rcases openDoor_getElem? manager doorId state index with same | ⟨door, active, stored, changed⟩
  · exact live entity (List.mem_of_getElem? (same ▸ found))
  · cases changed.symm.trans found
    exact live ⟨.door door, active⟩ (List.mem_of_getElem? stored)

theorem player_openDoor {self : Player K} (read : manager.player = .ok self) :
    (openDoor manager doorId state).player = .ok self := by
  obtain ⟨index, active, written, found⟩ := player_ok_iff.mp read
  rcases openDoor_getElem? manager doorId state index with same | ⟨door, active, stored, changed⟩
  · exact player_ok_iff.mpr ⟨index, active, playerIdx_openDoor.trans written, same.trans found⟩
  · cases stored.symm.trans found

theorem doorAt_openDoor {index : Nat} {door : Door K} (found : (openDoor manager doorId state).doorAt index = some door) :
    ∃ before, manager.doorAt index = some before ∧ door.pos = before.pos := by
  rcases openDoor_getElem? manager doorId state index with same | ⟨before, active, stored, changed⟩
  · exact ⟨door, by simpa [EntityManager.doorAt, same] using found, rfl⟩
  · refine ⟨before, by simp [EntityManager.doorAt, stored], ?_⟩
    simp only [EntityManager.doorAt, changed, Option.some.injEq] at found
    rw [← found]

end

theorem createEntity_ok {manager next : EntityManager K} {data : EntityData K}
    (created : createEntity manager data = .ok next) :
    next.entities = manager.entities ++ [⟨data, true⟩] ∧ next.playerIdx = manager.playerIdx := by
  unfold createEntity at created
  dsimp only at created
  generalize (if manager.count ≥ manager.capacity then manager.capacity * 2 else manager.capacity) = capacity
    at created
  split at created
  · cases created
    exact ⟨rfl, rfl⟩
  · cases created

theorem createEntity_holds {manager next : EntityManager K} {data : EntityData K}
    (holds : HoldsPlayer manager) (created : createEntity manager data = .ok next) : HoldsPlayer next := by
  obtain ⟨index, entity, self, written, found, isPlayer⟩ := holds
  obtain ⟨entities, kept⟩ := createEntity_ok created
  refine ⟨index, entity, self, kept.trans written, ?_, isPlayer⟩
  rw [entities, List.getElem?_append_left (List.getElem?_eq_some_iff.mp found).1, found]

theorem createPlayerEntity_holds {manager next : EntityManager K} {self : Player K}
    (created : createEntity { manager with playerIdx := some manager.count } (.player self) = .ok next) :
    HoldsPlayer next := by
  obtain ⟨entities, kept⟩ := createEntity_ok created
  refine ⟨manager.count, ⟨.player self, true⟩, self, kept, ?_, rfl⟩
  rw [entities]
  exact List.getElem?_concat_length

/-- The ways through the scan of one cell. -/
inductive CellSpawned [Scalar K] (objects : List ObjectConfig) (spawning : Spawning K) (cell : Nat × Nat × Int) :
    Spawning K → Prop where
  | player {manager : EntityManager K} : spawnOf objects cell.2.2 = some .player →
      createEntity { spawning.manager with playerIdx := some spawning.manager.count }
        (.player (createPlayer (cellPos cell.1 cell.2.1) cell.2.2)) = .ok manager →
      CellSpawned objects spawning cell { spawning with manager }
  | door {manager : EntityManager K} : spawnOf objects cell.2.2 = some .door →
      createEntity spawning.manager (.door (createDoor (cellPos cell.1 cell.2.1) spawning.doorId cell.2.2)) =
        .ok manager →
      CellSpawned objects spawning cell ⟨manager, spawning.doorId + 1⟩
  | plain : spawnOf objects cell.2.2 = none → CellSpawned objects spawning cell spawning

section
variable [Scalar K] {objects : List ObjectConfig} {spawning next : Spawning K} {cell : Nat × Nat × Int}

theorem cellSpawned_of_ok (spawned : spawnCell objects spawning cell = .ok next) :
    CellSpawned objects spawning cell next := by
  cases kind : spawnOf objects cell.2.2 with
  | none =>
    simp only [spawnCell, kind] at spawned
    cases spawned
    exact .plain kind
  | some what =>
    cases what with
    | player =>
      simp only [spawnCell, kind] at spawned
      obtain ⟨manager, created, same⟩ := bind_ok_iff.mp spawned
      cases same
      exact .player kind created
    | door =>
      simp only [spawnCell, kind] at spawned
      obtain ⟨manager, created, same⟩ := bind_ok_iff.mp spawned
      cases same
      exact .door kind created

theorem spawnCell_player (kind : spawnOf objects cell.2.2 = some .player)
    (spawned : spawnCell objects spawning cell = .ok next) : HoldsPlayer next.manager := by
  cases cellSpawned_of_ok spawned with
  | player _ created => exact createPlayerEntity_holds created
  | door other => cases kind.symm.trans other
  | plain other => cases kind.symm.trans other

theorem spawnCell_keeps (holds : HoldsPlayer spawning.manager)
    (spawned : spawnCell objects spawning cell = .ok next) : HoldsPlayer next.manager := by
  cases cellSpawned_of_ok spawned with
  | player _ created => exact createPlayerEntity_holds created
  | door _ created => exact createEntity_holds holds created
  | plain _ => exact holds

theorem spawnCell_unwritten (kind : spawnOf objects cell.2.2 ≠ some .player)
    (unwritten : spawning.manager.playerIdx = none) (spawned : spawnCell objects spawning cell = .ok next) :
    next.manager.playerIdx = none := by
  cases cellSpawned_of_ok spawned with
  | player found => exact absurd found kind
  | door _ created => exact (createEntity_ok created).2.trans unwritten
  | plain _ => exact unwritten

end

theorem spawnEntities_holds_iff [Scalar K] {config : LevelConfig} {spawning : Spawning K}
    (spawned : spawnEntities config = .ok spawning) : HoldsPlayer spawning.manager ↔ HasPlayer config := by
  constructor
  · intro holds
    by_contra missing
    have unwritten : spawning.manager.playerIdx = none :=
      foldlM_invariant (fun state : Spawning K => state.manager.playerIdx = none)
        (fun state cell member next unwritten taken => spawnCell_unwritten
          (fun kind => missing ⟨cell.1, cell.2.1, cell.2.2, Grid.mem_cells.mp member, kind⟩) unwritten taken)
        rfl spawned
    obtain ⟨index, _, _, written, _⟩ := holds
    rw [unwritten] at written
    cases written
  · rintro ⟨r, c, tileId, found, kind⟩
    exact foldlM_establishes (fun state : Spawning K => HoldsPlayer state.manager)
      (fun state cell next holds taken => spawnCell_keeps holds taken) (Grid.mem_cells.mpr found)
      (fun state next taken => spawnCell_player kind taken) spawned

theorem getMap_parts [Scalar K] {loads : Bytes → Bool} {file : Option Json} {loaded : LoadedMap K}
    (read : getMap loads file = .ok (some loaded)) :
    ∃ stored config spawning textures, loadLevelFile file = .ok (some stored) ∧ stored.read = .ok config ∧
      spawnEntities config = .ok spawning ∧ initTextureManager loads config.objects = .ok textures ∧
      loaded = ⟨{ config with layout := clearSpawned config.objects config.layout }, spawning.manager, textures⟩ := by
  obtain ⟨answer, parsed, rest⟩ := bind_ok_iff.mp read
  cases answer with
  | none => cases rest
  | some stored =>
    obtain ⟨config, assigned, rest⟩ := bind_ok_iff.mp rest
    obtain ⟨spawning, spawned, rest⟩ := bind_ok_iff.mp rest
    obtain ⟨textures, initialised, same⟩ := bind_ok_iff.mp rest
    cases same
    exact ⟨stored, config, spawning, textures, parsed, assigned, spawned, initialised, rfl⟩

theorem getMap_spawns [Scalar K] {loads : Bytes → Bool} {file : Option Json} {loaded : LoadedMap K}
    (read : getMap loads file = .ok (some loaded)) :
    ∃ stored config spawning, loadLevelFile file = .ok (some stored) ∧ stored.read = .ok config ∧
      spawnEntities config = .ok spawning ∧ loaded.manager = spawning.manager := by
  obtain ⟨stored, config, spawning, textures, parsed, assigned, spawned, -, rfl⟩ := getMap_parts read
  exact ⟨stored, config, spawning, parsed, assigned, spawned, rfl⟩

theorem getMap_holds [Scalar K] {loads : Bytes → Bool} {file : Option Json} {loaded : LoadedMap K}
    (playable : Playable file) (read : getMap loads file = .ok (some loaded)) : HoldsPlayer loaded.manager := by
  obtain ⟨stored, config, spawning, parsed, assigned, spawned, same⟩ := getMap_spawns read
  rw [same]
  rcases playable with refused | ⟨_, _, parsed', assigned', player⟩
  · cases refused.symm.trans parsed
  · cases parsed'.symm.trans parsed
    cases assigned'.symm.trans assigned
    exact (spawnEntities_holds_iff spawned).mpr player

def Fresh [Scalar K] (entity : Entity K) : Prop :=
  entity.active = true ∧ ∀ self, entity.data = .player self → ∃ pos id, self = createPlayer pos id

theorem spawnCell_fresh [Scalar K] {objects : List ObjectConfig} {spawning next : Spawning K}
    {cell : Nat × Nat × Int} (fresh : ∀ entity ∈ spawning.manager.entities, Fresh entity)
    (spawned : spawnCell objects spawning cell = .ok next) : ∀ entity ∈ next.manager.entities, Fresh entity := by
  have appended {manager : EntityManager K} {data : EntityData K} (last : Fresh ⟨data, true⟩)
      (entities : manager.entities = spawning.manager.entities ++ [⟨data, true⟩]) :
      ∀ entity ∈ manager.entities, Fresh entity := by
    rw [entities]
    exact List.forall_mem_append.mpr ⟨fresh, List.forall_mem_singleton.mpr last⟩
  cases cellSpawned_of_ok spawned with
  | player _ created =>
    refine appended ⟨rfl, fun self same => ?_⟩ (createEntity_ok created).1
    cases same
    exact ⟨_, _, rfl⟩
  | door _ created => exact appended ⟨rfl, fun self same => by cases same⟩ (createEntity_ok created).1
  | plain _ => exact fresh

theorem getMap_fresh [Scalar K] {loads : Bytes → Bool} {file : Option Json} {loaded : LoadedMap K}
    (read : getMap loads file = .ok (some loaded)) : ∀ entity ∈ loaded.manager.entities, Fresh entity := by
  obtain ⟨stored, config, spawning, _, _, spawned, same⟩ := getMap_spawns read
  rw [same]
  exact foldlM_invariant (fun state : Spawning K => ∀ entity ∈ state.manager.entities, Fresh entity)
    (fun state cell _ next fresh taken => spawnCell_fresh fresh taken)
    (fun _ member => by cases member) spawned

end Trigger.Engine
