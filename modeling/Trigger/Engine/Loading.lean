import Trigger.Engine.Growth
import Trigger.Engine.Spawning
import Trigger.Foundation.Binary32
import Trigger.Foundation.Printing

/-! `get_map` with its `int`s, the array of the entities and the text of the number of a door.

The scan places the entities in exact positions while the places and the capacity stay in
`int`, the places are numbers that a `float` holds, and the number of a door has no more
digits than `num` has room for. Until then it is the scan without these bounds.
-/

set_option autoImplicit false

namespace Trigger.Engine.Loading
open Foundation Config

structure Door (K : Type) extends Engine.Door K where
  num : CharArray 8

inductive EntityData (K : Type) where
  | player (self : Player K)
  | door (self : Door K)

inductive VTable where
  | player
  | door
  deriving DecidableEq

structure Spawning (K : Type) where
  manager : Growth.EntityManager (EntityData K) VTable
  playerIdx : Option Nat
  doorId : Int

section
variable {K : Type} [Scalar K]

/-- The number is written by `sprintf`, which knows nothing of the eight bytes. -/
def createDoor (pos : Vector2 K) (id textureId : Int) : Except Fault (Door K) := do
  let num ← strcpy (numeralText id)
  return { Engine.createDoor pos id textureId with num }

def cellPos (i j : Nat) : Except Fault (Vector2 K) := do
  let x ← storeInt (j * 32)
  let y ← storeInt (i * 32)
  return ⟨ofInt x, ofInt y⟩

/-- The body of the scan for one cell; the allocations succeed. -/
def spawnCell (objects : List ObjectConfig) (spawning : Spawning K) (cell : Nat × Nat × Int) :
    Except Fault (Spawning K) :=
  let (i, j, tileId) := cell
  match spawnOf objects tileId with
  | some .player => do
    let pos ← cellPos i j
    let playerIdx := some spawning.manager.count
    let manager ← Growth.createStep spawning.manager (Growth.granted (.player (createPlayer pos tileId), .player))
    return { spawning with manager, playerIdx }
  | some .door => do
    let pos ← cellPos i j
    let doorId ← storeInt (spawning.doorId + 1)
    let door ← createDoor pos spawning.doorId tileId
    let manager ← Growth.createStep spawning.manager (Growth.granted (.door door, .door))
    return { spawning with manager, doorId }
  | none => .ok spawning

def spawnEntities (config : LevelConfig) : Except Fault (Spawning K) :=
  config.layout.cells.foldlM (spawnCell config.objects) ⟨Growth.createEntityManager 10, none, 0⟩

structure LoadedMap (K : Type) where
  config : LevelConfig
  manager : Growth.EntityManager (EntityData K) VTable
  playerIdx : Option Nat
  textures : TextureManager

/-- `get_map`; none when the file cannot be loaded. -/
def getMap (loads : Bytes → Bool) (file : Option Json) : Except Fault (Option (LoadedMap K)) := do
  match ← loadLevelFile file with
  | none => return none
  | some loaded =>
    let config ← loaded.read
    let spawning ← spawnEntities config
    let textures ← initTextureManager loads config.objects
    return some ⟨{ config with layout := clearSpawned config.objects config.layout }, spawning.manager,
      spawning.playerIdx, textures⟩

end

section
variable {K : Type} [Scalar K]

def EntityData.plain : EntityData K → Engine.EntityData K
  | .player self => .player self
  | .door self => .door self.toDoor

/-- The scan is where the one without bounds is. -/
structure Erases (spawning : Spawning K) (known : Engine.Spawning K) : Prop where
  manager : Growth.Represents EntityData.plain spawning.manager known.manager
  playerIdx : known.manager.playerIdx = spawning.playerIdx
  doorId : known.doorId = spawning.doorId
  doubles : Growth.DoublesTo 10 spawning.manager.capacity

structure CellFits (objects : List ObjectConfig) (entities doors : Nat) (cell : Nat × Nat × Int) : Prop where
  place : (spawnOf objects cell.2.2).isSome → cell.1 < 2 ^ 26 ∧ cell.2.1 < 2 ^ 26
  entity : (spawnOf objects cell.2.2).isSome → entities < 10 * 2 ^ 27
  door : spawnOf objects cell.2.2 = some .door → doors < 10 ^ 7

theorem fitsInt_tile_iff {n : Nat} : FitsInt (n * 32) ↔ n < 2 ^ 26 := by
  unfold FitsInt
  omega

theorem cellPos_ok_iff {i j : Nat} {pos : Vector2 K} :
    cellPos i j = .ok pos ↔ (i < 2 ^ 26 ∧ j < 2 ^ 26) ∧ pos = Engine.cellPos i j := by
  simp only [cellPos, bind_ok_iff, storeInt_ok_iff, fitsInt_tile_iff]
  constructor
  · rintro ⟨x, ⟨column, rfl⟩, y, ⟨row, rfl⟩, same⟩
    cases same
    exact ⟨⟨row, column⟩, rfl⟩
  · rintro ⟨⟨row, column⟩, rfl⟩
    exact ⟨_, ⟨column, rfl⟩, _, ⟨row, rfl⟩, rfl⟩

theorem createDoor_ok_iff {pos : Vector2 K} {id : Nat} {textureId : Int} {door : Door K} :
    createDoor pos id textureId = .ok door ↔
      id < 10 ^ 7 ∧ door.toDoor = Engine.createDoor pos id textureId ∧ door.num.val = numeralText id := by
  have digits : (numeralText id).length < 8 ↔ id < 10 ^ 7 := by
    rw [numeralText, if_neg (by omega), Int.natAbs_natCast, Nat.lt_succ_iff, length_decimalText_le_iff (by decide)]
  simp only [createDoor, bind_ok_iff, strcpy_ok_iff]
  constructor
  · rintro ⟨num, written, same⟩
    cases same
    exact ⟨digits.mp (written ▸ num.property), rfl, written.symm⟩
  · rintro ⟨few, plain, written⟩
    obtain ⟨plainDoor, num⟩ := door
    cases plain
    exact ⟨num, written.symm, rfl⟩

theorem doublesTo_ten_le {capacity : Nat} (doubles : Growth.DoublesTo 10 capacity) : capacity ≤ 10 * 2 ^ 27 := by
  obtain ⟨doublings, rfl, rfl | inRange⟩ := doubles
  · decide
  · by_contra large
    have more : 27 < doublings := by
      by_contra few
      exact large (Nat.mul_le_mul_left 10 (Nat.pow_le_pow_right (by decide) (Nat.le_of_not_lt few)))
    have power : 2 ^ 28 ≤ 2 ^ doublings := Nat.pow_le_pow_right (by decide) more
    omega

section
variable {objects : List ObjectConfig} {spawning next : Spawning K} {known : Engine.Spawning K}
variable {cell : Nat × Nat × Int} {doors : Nat}

omit [Scalar K] in
/-- A call of `create_entity` that succeeds is one of the engine, and there was room for it in `int`. -/
theorem createStep_erases {manager after : Growth.EntityManager (EntityData K) VTable} {plain : EntityManager K}
    (represents : Growth.Represents EntityData.plain manager plain) (doubles : Growth.DoublesTo 10 manager.capacity)
    {object : EntityData K × VTable} (taken : Growth.createStep manager (Growth.granted object) = .ok after) :
    plain.count < 10 * 2 ^ 27 ∧ ∃ next, createEntity plain object.1.plain = .ok next ∧
      Growth.Represents EntityData.plain after next ∧ Growth.DoublesTo 10 after.capacity := by
  obtain ⟨entities, has, -⟩ := represents.has
  obtain ⟨hasNext, doublesNext⟩ := Growth.Has.step has doubles taken
  refine ⟨?_, ?_⟩
  · have inside := hasNext.bounded.count.trans (doublesTo_ten_le doublesNext)
    rw [hasNext.count, List.length_append, List.length_singleton, ← has.count, ← represents.count] at inside
    exact inside
  · rcases Growth.createEntity_refines represents object with large | ⟨outside, -⟩ | ⟨_, next, also, same, holds⟩
    · cases large.symm.trans taken
    · cases outside.symm.trans taken
    · cases also.symm.trans taken
      exact ⟨next, same, holds, doublesNext⟩

theorem spawnCell_erases (erases : Erases spawning known) (numbered : known.doorId = doors)
    (spawned : spawnCell objects spawning cell = .ok next) : CellFits objects known.manager.count doors cell ∧
      ∃ after, Engine.spawnCell objects known cell = .ok after ∧ Erases next after := by
  have number : spawning.doorId = doors := erases.doorId.symm.trans numbered
  cases kind : spawnOf objects cell.2.2 with
  | none =>
    simp only [spawnCell, kind] at spawned
    cases spawned
    exact ⟨⟨by simp [kind], by simp [kind], by simp [kind]⟩, known, by simp only [Engine.spawnCell, kind], erases⟩
  | some what =>
    cases what with
    | player =>
      simp only [spawnCell, kind] at spawned
      obtain ⟨pos, place, rest⟩ := bind_ok_iff.mp spawned
      obtain ⟨manager, created, same⟩ := bind_ok_iff.mp rest
      obtain ⟨inReach, rfl⟩ := cellPos_ok_iff.mp place
      cases same
      -- The index of the player is written to the manager before the entity is put into it.
      have indexed : Growth.Represents EntityData.plain spawning.manager
          { known.manager with playerIdx := some known.manager.count } := ⟨erases.manager.has, erases.manager.capacity⟩
      obtain ⟨room, after, also, holds, doubles⟩ := createStep_erases indexed erases.doubles created
      refine ⟨⟨fun _ => inReach, fun _ => room, by simp [kind]⟩, { known with manager := after }, ?_, ?_⟩
      · simp only [Engine.spawnCell, kind]
        exact bind_ok_iff.mpr ⟨_, also, rfl⟩
      · exact ⟨holds, (createEntity_ok also).2.trans (congrArg some erases.manager.count), erases.doorId, doubles⟩
    | door =>
      simp only [spawnCell, kind] at spawned
      obtain ⟨pos, place, rest⟩ := bind_ok_iff.mp spawned
      obtain ⟨doorId, counted, rest⟩ := bind_ok_iff.mp rest
      obtain ⟨door, written, rest⟩ := bind_ok_iff.mp rest
      obtain ⟨manager, created, same⟩ := bind_ok_iff.mp rest
      obtain ⟨inReach, rfl⟩ := cellPos_ok_iff.mp place
      obtain ⟨-, rfl⟩ := storeInt_ok_iff.mp counted
      rw [number] at written
      obtain ⟨few, plain, -⟩ := createDoor_ok_iff.mp written
      cases same
      obtain ⟨room, after, also, holds, doubles⟩ := createStep_erases erases.manager erases.doubles created
      refine ⟨⟨fun _ => inReach, fun _ => room, fun _ => few⟩, ⟨after, known.doorId + 1⟩, ?_, ?_⟩
      · simp only [Engine.spawnCell, kind]
        refine bind_ok_iff.mpr ⟨after, ?_, rfl⟩
        rw [EntityData.plain, plain, ← numbered] at also
        exact also
      · exact ⟨holds, (createEntity_ok also).2.trans erases.playerIdx, by rw [erases.doorId], doubles⟩

theorem spawnCell_succeeds (erases : Erases spawning known) (numbered : known.doorId = doors)
    (fits : CellFits objects known.manager.count doors cell) : ∃ next, spawnCell objects spawning cell = .ok next := by
  obtain ⟨entities, has, -⟩ := erases.manager.has
  have creates (room : known.manager.count < 10 * 2 ^ 27) (object : EntityData K × VTable) :
      ∃ manager, Growth.createStep spawning.manager (Growth.granted object) = .ok manager :=
    Growth.createStep_granted_succeeds has erases.doubles ⟨10 * 2 ^ 27, ⟨27, rfl, .inr (by decide)⟩, le_refl _⟩
      (erases.manager.count ▸ room) object
  have number : spawning.doorId = doors := erases.doorId.symm.trans numbered
  cases kind : spawnOf objects cell.2.2 with
  | none => exact ⟨spawning, by simp only [spawnCell, kind]⟩
  | some what =>
    have inReach := fits.place (by simp [kind])
    have room := fits.entity (by simp [kind])
    have place : cellPos cell.1 cell.2.1 = .ok (Engine.cellPos cell.1 cell.2.1 : Vector2 K) :=
      cellPos_ok_iff.mpr ⟨inReach, rfl⟩
    cases what with
    | player =>
      obtain ⟨manager, created⟩ := creates room (.player (createPlayer (Engine.cellPos cell.1 cell.2.1) cell.2.2), .player)
      simp only [spawnCell, kind]
      exact ⟨_, bind_ok_iff.mpr ⟨_, place, bind_ok_iff.mpr ⟨manager, created, rfl⟩⟩⟩
    | door =>
      have few := fits.door kind
      obtain ⟨num, digits⟩ : ∃ num : CharArray 8, num.val = numeralText doors := by
        refine ⟨⟨numeralText doors, ?_⟩, rfl⟩
        rw [numeralText, if_neg (by omega), Int.natAbs_natCast, Nat.lt_succ_iff, length_decimalText_le_iff (by decide)]
        exact few
      let door : Door K := ⟨Engine.createDoor (Engine.cellPos cell.1 cell.2.1) doors cell.2.2, num⟩
      have written : createDoor (Engine.cellPos cell.1 cell.2.1) doors cell.2.2 = .ok door :=
        createDoor_ok_iff.mpr ⟨few, rfl, digits⟩
      obtain ⟨manager, created⟩ := creates room (.door door, .door)
      have counted : storeInt (spawning.doorId + 1) = .ok (spawning.doorId + 1) :=
        storeInt_ok_iff.mpr ⟨by unfold FitsInt; omega, rfl⟩
      simp only [spawnCell, kind]
      exact ⟨_, bind_ok_iff.mpr ⟨_, place, bind_ok_iff.mpr ⟨_, counted, bind_ok_iff.mpr ⟨_, number ▸ written,
        bind_ok_iff.mpr ⟨manager, created, rfl⟩⟩⟩⟩⟩

end

structure ScanFits (objects : List ObjectConfig) (cells : List (Nat × Nat × Int)) : Prop where
  places : ∀ cell ∈ spawningCells objects cells, cell.1 < 2 ^ 26 ∧ cell.2.1 < 2 ^ 26
  entities : (spawningCells objects cells).length ≤ 10 * 2 ^ 27
  doors : (doorCells objects cells).length ≤ 10 ^ 7

section
variable {objects : List ObjectConfig} {taken cells : List (Nat × Nat × Int)} {cell : Nat × Nat × Int}

theorem scanFits_concat_iff : ScanFits objects (taken ++ [cell]) ↔ ScanFits objects taken ∧
    CellFits objects (spawningCells objects taken).length (doorCells objects taken).length cell := by
  have spawns : (spawnOf objects cell.2.2).isSome ∨ spawnOf objects cell.2.2 = none := by
    cases spawnOf objects cell.2.2 <;> simp
  constructor
  · rintro ⟨places, entities, doors⟩
    rw [spawningCells_concat] at places entities
    rw [doorCells_concat] at doors
    rw [List.length_append] at entities doors
    refine ⟨⟨fun other member => places other (List.mem_append_left _ member), by omega, by omega⟩, ?_, ?_, ?_⟩
    · intro some
      exact places cell (List.mem_append_right _ (by rw [if_pos some]; exact List.mem_singleton_self cell))
    · intro some
      rw [if_pos some, List.length_singleton] at entities
      omega
    · intro isDoor
      rw [if_pos isDoor, List.length_singleton] at doors
      omega
  · rintro ⟨⟨places, entities, doors⟩, place, entity, door⟩
    refine ⟨?_, ?_, ?_⟩
    · rw [spawningCells_concat]
      intro other member
      rcases List.mem_append.mp member with before | last
      · exact places other before
      · split at last
        · rename_i some
          exact List.mem_singleton.mp last ▸ place some
        · cases last
    · rw [spawningCells_concat, List.length_append]
      split
      · rename_i some
        have room := entity some
        rw [List.length_singleton]
        omega
      · exact entities
    · rw [doorCells_concat, List.length_append]
      split
      · rename_i isDoor
        have room := door isDoor
        rw [List.length_singleton]
        omega
      · exact doors

structure Follows (objects : List ObjectConfig) (taken : List (Nat × Nat × Int)) (spawning : Spawning K)
    (known : Engine.Spawning K) : Prop where
  plain : taken.foldlM (Engine.spawnCell objects) ⟨createEntityManager 10, 0⟩ = .ok known
  erases : Erases spawning known
  scanned : Scanned objects taken known
  fits : ScanFits objects taken

theorem start_follows (objects : List ObjectConfig) :
    Follows objects [] (⟨Growth.createEntityManager 10, none, 0⟩ : Spawning K) ⟨createEntityManager 10, 0⟩ where
  plain := rfl
  erases := ⟨Growth.createEntityManager_represents 10, rfl, rfl, Growth.DoublesTo.refl 10⟩
  scanned := ⟨⟨rfl, nofun⟩, rfl, rfl⟩
  fits := ⟨nofun, Nat.zero_le _, Nat.zero_le _⟩

theorem spawnCell_follows {spawning next : Spawning K} {known : Engine.Spawning K}
    (follows : Follows objects taken spawning known) (spawned : spawnCell objects spawning cell = .ok next) :
    ∃ after, Follows objects (taken ++ [cell]) next after := by
  obtain ⟨plain, erases, scanned, fits⟩ := follows
  obtain ⟨cellFits, after, also, holds⟩ := spawnCell_erases erases scanned.doorId spawned
  rw [scanned.entities.count] at cellFits
  refine ⟨after, ?_, holds, spawnCell_scanned scanned also, scanFits_concat_iff.mpr ⟨fits, cellFits⟩⟩
  rw [List.foldlM_append]
  exact bind_ok_iff.mpr ⟨known, plain, bind_ok_iff.mpr ⟨after, also, rfl⟩⟩

/-- A scan that ends has kept its bounds, and is the scan without them. -/
theorem scan_follows {spawning : Spawning K}
    (spawned : cells.foldlM (spawnCell objects) ⟨Growth.createEntityManager 10, none, 0⟩ = .ok spawning) :
    ∃ known, Follows objects cells spawning known :=
  foldlM_history (fun taken spawning => ∃ known, Follows objects taken spawning known)
    (fun _ _ _ _ ⟨_, follows⟩ step => spawnCell_follows follows step) ⟨_, start_follows objects⟩ spawned

theorem scan_succeeds (fits : ScanFits objects cells) : ∃ spawning : Spawning K,
    cells.foldlM (spawnCell objects) ⟨Growth.createEntityManager 10, none, 0⟩ = .ok spawning := by
  induction cells using List.reverseRecOn with
  | nil => exact ⟨_, rfl⟩
  | append_singleton taken cell ih =>
    obtain ⟨before, cellFits⟩ := scanFits_concat_iff.mp fits
    obtain ⟨spawning, spawned⟩ := ih before
    obtain ⟨known, follows⟩ := scan_follows spawned
    rw [← follows.scanned.entities.count] at cellFits
    obtain ⟨next, step⟩ := spawnCell_succeeds follows.erases follows.scanned.doorId cellFits
    refine ⟨next, ?_⟩
    rw [List.foldlM_append]
    exact bind_ok_iff.mpr ⟨spawning, spawned, bind_ok_iff.mpr ⟨next, step, rfl⟩⟩

end

end

/-! ## Exact places -/

/-- The entity stands at the corner of its cell, and a door is to rise by one cell. -/
def StandsAt (cell : Nat × Nat × Int) : Engine.EntityData Binary32 → Prop
  | .player self => self.pos.x.value = 32 * cell.2.1 ∧ self.pos.y.value = 32 * cell.1
  | .door self => self.pos.x.value = 32 * cell.2.1 ∧ self.pos.y.value = 32 * cell.1 ∧
      self.maxHeight.value = 32 * cell.1 - 32

structure PopulatedExactly (config : LevelConfig) (manager : EntityManager Binary32) (layout : MapLayout) : Prop
    extends Populated config manager layout where
  placed : ∀ (k : Nat) cell, (spawningCells config.objects config.layout.cells)[k]? = some cell →
    ∃ entity, manager.entities[k]? = some entity ∧ StandsAt cell entity.data

/-- `get_map` turns a level into its entities; what is left is to load the textures. -/
def Populates (loads : Bytes → Bool) (file : Option Json) (config : LevelConfig) : Prop :=
  ∃ (spawning : Spawning Binary32) (manager : EntityManager Binary32) (layout : MapLayout),
    spawnEntities config = .ok spawning ∧ Growth.Represents EntityData.plain spawning.manager manager ∧
    manager.playerIdx = spawning.playerIdx ∧ PopulatedExactly config manager layout ∧
    getMap loads file = (initTextureManager loads config.objects).map fun textures =>
      some ⟨{ config with layout }, spawning.manager, spawning.playerIdx, textures⟩

/-- A `float` holds the place of the cell, and the height a door of it is to rise to. -/
structure PlaceHeld (objects : List ObjectConfig) (cell : Nat × Nat × Int) : Prop where
  x : Representable 24 (32 * cell.2.1 : Rat)
  y : Representable 24 (32 * cell.1 : Rat)
  top : spawnOf objects cell.2.2 = some .door → Representable 24 (32 * cell.1 - 32 : Rat)

/-- The numbers of the scan are `int`s and its places `float`s. -/
structure LevelFits (config : LevelConfig) : Prop where
  scan : ScanFits config.objects config.layout.cells
  held : ∀ cell ∈ spawningCells config.objects config.layout.cells, PlaceHeld config.objects cell

theorem cellPos_value (i j : Nat) : (Engine.cellPos i j : Vector2 Binary32).x.value = roundBinary 24 (32 * j : Rat) ∧
    (Engine.cellPos i j : Vector2 Binary32).y.value = roundBinary 24 (32 * i : Rat) := by
  have product (n : Nat) : (((n * 32 : Nat) : Int) : Rat) = 32 * n := by push_cast; ring
  constructor
  · exact congrArg (roundBinary 24) (product j)
  · exact congrArg (roundBinary 24) (product i)

theorem createDoor_limit {pos : Vector2 Binary32} {id textureId : Int} :
    (Engine.createDoor pos id textureId).maxHeight.value = roundBinary 24 (pos.y.value - 32) := by
  have step : (ofInt 32 : Binary32).value = 32 := Binary32.ofRat_value (representable_intCast (n := 32) (by decide))
  change roundBinary 24 (pos.y.value - (ofInt 32 : Binary32).value) = _
  rw [step]

theorem standsAt_iff {objects : List ObjectConfig} {doorId : Nat} {cell : Nat × Nat × Int} {entity : Entity Binary32}
    (spawned : SpawnedAs objects doorId cell entity) : StandsAt cell entity.data ↔ PlaceHeld objects cell := by
  obtain ⟨x, y⟩ := cellPos_value cell.1 cell.2.1
  have held {exact : Rat} : roundBinary 24 exact = exact ↔ Representable 24 exact := roundBinary_eq_self_iff (by decide)
  cases spawned with
  | player kind =>
    have placed : StandsAt cell (.player (createPlayer (Engine.cellPos cell.1 cell.2.1) cell.2.2)) ↔
        Representable 24 (32 * cell.2.1 : Rat) ∧ Representable 24 (32 * cell.1 : Rat) := by
      change _ = _ ∧ _ = _ ↔ _
      rw [createPlayer, x, y, held, held]
    rw [placed]
    exact ⟨fun ⟨column, row⟩ => ⟨column, row, by simp [kind]⟩, fun place => ⟨place.x, place.y⟩⟩
  | door kind =>
    have placed : StandsAt cell (.door (doorOf doorId cell)) ↔ Representable 24 (32 * cell.2.1 : Rat) ∧
        Representable 24 (32 * cell.1 : Rat) ∧
        roundBinary 24 (roundBinary 24 (32 * cell.1 : Rat) - 32) = 32 * cell.1 - 32 := by
      change _ = _ ∧ _ = _ ∧ _ = _ ↔ _
      have column : roundBinary 24 (32 * cell.2.1 : Rat) = 32 * cell.2.1 ↔ _ := held
      have row : roundBinary 24 (32 * cell.1 : Rat) = 32 * cell.1 ↔ _ := held
      rw [doorOf, createDoor_limit, ← column, ← row, ← x, ← y]
      rfl
    rw [placed]
    constructor
    · rintro ⟨column, row, top⟩
      rw [row.round] at top
      exact ⟨column, row, fun _ => held.mp top⟩
    · rintro ⟨column, row, top⟩
      exact ⟨column, row, by rw [row.round]; exact (top kind).round⟩

/-- Every fully assigned level is turned into its entities exactly where its numbers fit. -/
theorem populates_iff (loads : Bytes → Bool) {file : Option Json} {stored : LoadedConfig} {config : LevelConfig}
    (parsed : loadLevelFile file = .ok (some stored)) (read : stored.read = .ok config) :
    Populates loads file config ↔ LevelFits config := by
  constructor
  · rintro ⟨spawning, manager, layout, spawned, -, -, populated, -⟩
    obtain ⟨known, follows⟩ := scan_follows spawned
    refine ⟨follows.fits, fun cell member => ?_⟩
    obtain ⟨k, found⟩ := List.mem_iff_getElem?.mp member
    obtain ⟨entity, there, stands⟩ := populated.placed k cell found
    obtain ⟨other, also, spawnedAs⟩ := populated.entities.entity k cell found
    cases there.symm.trans also
    exact (standsAt_iff spawnedAs).mp stands
  · rintro ⟨scan, held⟩
    obtain ⟨spawning, spawned⟩ := scan_succeeds (K := Binary32) scan
    obtain ⟨known, follows⟩ := scan_follows spawned
    have populated : Populated config known.manager _ := populated_of_scan follows.plain
    refine ⟨spawning, known.manager, _, spawned, follows.erases.manager, follows.erases.playerIdx, ⟨populated, ?_⟩, ?_⟩
    · intro k cell found
      obtain ⟨entity, there, spawnedAs⟩ := populated.entities.entity k cell found
      exact ⟨entity, there, (standsAt_iff spawnedAs).mpr (held cell (List.mem_of_getElem? found))⟩
    · have whole : spawnEntities config = .ok spawning := spawned
      rw [getMap, parsed]
      simp only [bind, Except.bind, read, whole]
      cases initTextureManager loads config.objects <;> rfl

def manyDoors : MapLayout := Grid.ofFn 1 10000001 fun _ _ => 2

theorem length_doorCells_row (n : Nat) :
    (doorCells gridObjects (Grid.ofFn 1 n fun _ _ => (2 : Int)).cells).length = n := by
  have isDoor : spawnOf gridObjects 2 = some .door := by decide
  have each : ∀ cell ∈ (Grid.ofFn 1 n fun _ _ => (2 : Int)).cells, spawnOf gridObjects cell.2.2 = some .door := by
    rintro ⟨r, c, value⟩ member
    have found := Grid.mem_cells.mp member
    rw [Grid.get?_ofFn] at found
    split at found
    · cases found
      exact isDoor
    · cases found
  rw [doorCells, List.filter_eq_self.mpr fun cell member => decide_eq_true (each cell member)]
  simp [Grid.cells, Grid.ofFn]

/-- The number of the last has eight digits, and no room for the end of its text. -/
theorem manyDoors_not_populates : ∃ stored config,
    loadLevelFile (some (gridLevel manyDoors.data manyDoors.cols)) = .ok (some stored) ∧ stored.read = .ok config ∧
      ¬ Populates (fun _ => true) (some (gridLevel manyDoors.data manyDoors.cols)) config := by
  refine ⟨_, gridConfig manyDoors, loadLevelFile_gridLevel manyDoors, LoadedConfig.read_ofConfig _, ?_⟩
  rintro ⟨spawning, -, -, spawned, -⟩
  obtain ⟨known, follows⟩ := scan_follows spawned
  have few := follows.fits.doors
  have many : (doorCells gridObjects manyDoors.cells).length = 10000001 := length_doorCells_row 10000001
  change (doorCells gridObjects manyDoors.cells).length ≤ 10 ^ 7 at few
  omega

/-- Three doors in two rows, a player between them and a wall. -/
theorem threeDoors_populates_iff : ∃ stored config,
    loadLevelFile (some (gridLevel [[2, 4, 1], [0, 2, 2]] 3)) = .ok (some stored) ∧ stored.read = .ok config ∧
      (Populates (fun _ => true) (some (gridLevel [[2, 4, 1], [0, 2, 2]] 3)) config ↔ LevelFits config) :=
  ⟨_, _, rfl, rfl, populates_iff _ rfl rfl⟩

end Trigger.Engine.Loading
