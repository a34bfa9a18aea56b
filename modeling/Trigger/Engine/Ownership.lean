import Trigger.Engine.Frames
import Trigger.Foundation.Ledger
import Trigger.Foundation.Runs

/-! Who releases what the engine creates.

The engine runs beside a ledger of its heap objects. It owns them through two
pointers, to the entity manager and to the level, and each loaded level overwrites
both; only `engine_shutdown` releases, and only what they point to then.
-/

set_option autoImplicit false

namespace Trigger.Engine
open Foundation Config Terminal

/-- The heap objects that are accounted for; `entityData` is a player or a door. -/
inductive ObjectKind where
  | entityManager
  | entityRecord
  | entityData
  | levelConfig
  deriving DecidableEq, Repr

abbrev Heap := Ledger ObjectKind

structure Slot where
  record : Nat
  data : Nat
  deriving DecidableEq, Repr

structure Pointers where
  entityManager : Nat
  slots : List Slot
  currentMap : Option Nat
  deriving DecidableEq, Repr

variable {K : Type} [Scalar K]

structure OwnedSpawning (K : Type) where
  spawning : Spawning K
  heap : Heap
  slots : List Slot

/-- `create_player` or `create_door`, and then the record of `create_entity`. -/
def OwnedSpawning.add (owned : OwnedSpawning K) (spawning : Spawning K) : OwnedSpawning K :=
  let (data, heap) := owned.heap.create .entityData
  let (record, heap) := heap.create .entityRecord
  ⟨spawning, heap, owned.slots ++ [⟨record, data⟩]⟩

def spawnCellOwned (objects : List ObjectConfig) (owned : OwnedSpawning K) (cell : Nat × Nat × Int) :
    Except Fault (OwnedSpawning K) := do
  let spawning ← spawnCell objects owned.spawning cell
  return if (spawnOf objects cell.2.2).isSome then owned.add spawning else { owned with spawning }

structure OwnedMap (K : Type) where
  loaded : LoadedMap K
  held : Pointers
  heap : Heap

/-- `get_map`: the loader creates the level, then a manager is created for its entities. -/
def getMapOwned (loads : Bytes → Bool) (file : Option Json) (heap : Heap) : Except Fault (Option (OwnedMap K)) := do
  match ← loadLevelFile file with
  | none => return none
  | some stored =>
    let (levelConfig, heap) := heap.create .levelConfig
    let (manager, heap) := heap.create .entityManager
    let config ← stored.read
    let owned ← config.layout.cells.foldlM (spawnCellOwned config.objects) ⟨⟨createEntityManager 10, 0⟩, heap, []⟩
    let textures ← initTextureManager loads config.objects
    return some ⟨⟨{ config with layout := clearSpawned config.objects config.layout }, owned.spawning.manager, textures⟩,
      ⟨manager, owned.slots, some levelConfig⟩, owned.heap⟩

structure OwnedEngine (K : Type) where
  engine : EngineContext K
  held : Pointers
  heap : Heap

def drawLevelListOwned (owned : OwnedEngine K) (input : FrameInput K) : Except Fault (OwnedEngine K) :=
  let engine := { owned.engine with menu := owned.engine.menu.pick input.click }
  let path := engine.menu.selectedLevelPath.val
  if path ≠ [] then do
    match ← getMapOwned input.loads (input.files path) owned.heap with
    | some map => return ⟨← startLevel engine map.loaded, map.held, map.heap⟩
    -- `current_map` is overwritten, the entity manager stays.
    | none =>
      return ⟨{ engine with gameState := .stop, currentMap := none }, { owned.held with currentMap := none }, owned.heap⟩
  else .ok { owned with engine }

def engineDrawOwned (owned : OwnedEngine K) (input : FrameInput K) : Except Fault (OwnedEngine K) :=
  if owned.engine.gameState = .stop ∧ owned.engine.menu.levelSelectActive = true then
    drawLevelListOwned owned input
  else do return { owned with engine := ← engineDraw owned.engine input }

def engineStepOwned (owned : OwnedEngine K) : EngineEvent K → Except Fault (OwnedEngine K)
  | .frame input =>
    if owned.engine.gameState = .exit then .ok owned
    else do
      let engine ← engineUpdate owned.engine input
      engineDrawOwned { owned with engine } input
  | event => do return { owned with engine := ← engineStep owned.engine event }

def engineInitOwned (menu : Menu) (width height : Int) : OwnedEngine K :=
  let (manager, heap) := (Ledger.empty : Heap).create .entityManager
  ⟨engineInit menu width height, ⟨manager, [], none⟩, heap⟩

/-- `destroy_entity`: the data of each entity, not its record. -/
def destroyEntity (slots : List Slot) (heap : Heap) : Heap := slots.foldl (fun heap slot => heap.release slot.data) heap

def engineShutdown (owned : OwnedEngine K) : Heap :=
  let heap := (destroyEntity owned.held.slots owned.heap).release owned.held.entityManager
  match owned.held.currentMap with
  | some map => heap.release map
  | none => heap

/-! ## The property and its condition -/

/-- At most one manager and one level at any time, and in the end everything is released once. -/
structure ReleasesAll (start : OwnedEngine K) (events : List (EngineEvent K)) : Prop where
  oneAtATime : ∀ front back owned, events = front ++ back → run engineStepOwned start front = .ok owned →
    owned.heap.AtMostOne .entityManager ∧ owned.heap.AtMostOne .levelConfig
  balanced : ∀ owned, run engineStepOwned start events = .ok owned → (engineShutdown owned).Balanced

/-- The frame draws the list of levels, and the file of the entry it picks can be loaded. -/
def LoadsLevel (engine : EngineContext K) (input : FrameInput K) : Prop :=
  engine.gameState ≠ .exit ∧ ∃ middle path stored, engineUpdate engine input = .ok middle ∧
    middle.gameState = .stop ∧ pickedLevel middle.menu input.click = some path ∧
    loadLevelFile (input.files path) = .ok (some stored)

def LoadsNothing (engine : EngineContext K) (event : EngineEvent K) : Prop :=
  ∀ input, event = .frame input → ¬ LoadsLevel engine input

theorem spawnCellOwned_erases (objects : List ObjectConfig) (owned : OwnedSpawning K) (cell : Nat × Nat × Int) :
    (spawnCellOwned objects owned cell).map OwnedSpawning.spawning = spawnCell objects owned.spawning cell := by
  unfold spawnCellOwned
  cases spawnCell objects owned.spawning cell with
  | error fault => rfl
  | ok spawning =>
    change Except.ok (OwnedSpawning.spawning _) = Except.ok spawning
    split <;> rfl

theorem spawnCells_erases (objects : List ObjectConfig) (cells : List (Nat × Nat × Int)) (owned : OwnedSpawning K) :
    (cells.foldlM (spawnCellOwned objects) owned).map OwnedSpawning.spawning =
      cells.foldlM (spawnCell objects) owned.spawning := by
  induction cells generalizing owned with
  | nil => rfl
  | cons cell rest ih =>
    rw [List.foldlM_cons, List.foldlM_cons]
    exact map_bind_of_map_eq (spawnCellOwned_erases objects owned cell) fun next => ih next

theorem getMapOwned_erases (loads : Bytes → Bool) (file : Option Json) (heap : Heap) :
    (getMapOwned loads file heap).map (Option.map OwnedMap.loaded) = (getMap loads file : Except Fault (Option (LoadedMap K))) := by
  unfold getMapOwned getMap
  refine map_bind_of_eq fun answer => ?_
  cases answer with
  | none => rfl
  | some stored =>
    refine map_bind_of_eq fun config => ?_
    refine map_bind_of_map_eq (spawnCells_erases config.objects config.layout.cells _) fun owned => ?_
    exact map_bind_of_eq fun textures => rfl

theorem drawLevelListOwned_erases (owned : OwnedEngine K) (input : FrameInput K) :
    (drawLevelListOwned owned input).map OwnedEngine.engine = drawLevelList owned.engine input := by
  unfold drawLevelListOwned drawLevelList
  dsimp only
  split
  · refine map_bind_of_map_eq (getMapOwned_erases input.loads _ owned.heap) fun answer => ?_
    cases answer with
    | none => rfl
    | some map =>
      change (startLevel _ map.loaded >>= fun engine => .ok ⟨engine, map.held, map.heap⟩).map OwnedEngine.engine =
        startLevel _ map.loaded
      cases startLevel _ map.loaded <;> rfl
  · rfl

theorem engineDrawOwned_erases (owned : OwnedEngine K) (input : FrameInput K) :
    (engineDrawOwned owned input).map OwnedEngine.engine = engineDraw owned.engine input := by
  unfold engineDrawOwned
  split
  · rename_i listed
    rw [drawLevelListOwned_erases, engineDraw, listed.1]
    exact (if_pos listed.2).symm
  · cases engineDraw owned.engine input <;> rfl

/-- Without its heap the engine does what it did before. -/
theorem engineStepOwned_erases (owned : OwnedEngine K) (event : EngineEvent K) :
    (engineStepOwned owned event).map OwnedEngine.engine = engineStep owned.engine event := by
  cases event with
  | frame input =>
    rw [engineStepOwned, engineStep]
    split
    · rfl
    · exact map_bind_of_eq fun engine => engineDrawOwned_erases { owned with engine } input
  | doorMessage doorId state => rfl
  | connectionFailed => rfl

theorem run_erases (owned : OwnedEngine K) (events : List (EngineEvent K)) :
    (run engineStepOwned owned events).map OwnedEngine.engine = run engineStep owned.engine events := by
  induction events generalizing owned with
  | nil => rfl
  | cons event rest ih =>
    rw [run, run, ← engineStepOwned_erases]
    cases engineStepOwned owned event with
    | error fault => rfl
    | ok next => exact ih next

theorem run_owned (owned : OwnedEngine K) {events : List (EngineEvent K)} {final : EngineContext K}
    (reached : run engineStep owned.engine events = .ok final) :
    ∃ last, run engineStepOwned owned events = .ok last ∧ last.engine = final :=
  map_ok_iff.mp ((run_erases owned events).trans reached)

structure FreshPointers (before after : Heap) (held : Pointers) : Prop where
  manager : after.Holds held.entityManager .entityManager ∧ before.created.length ≤ held.entityManager
  level : ∀ map, held.currentMap = some map → after.Holds map .levelConfig
  data : ∀ slot ∈ held.slots, after.Holds slot.data .entityData
  distinct : (held.slots.map Slot.data).Nodup

omit [Scalar K] in
theorem add_owned {owned : OwnedSpawning K} (spawning : Spawning K)
    (data : ∀ slot ∈ owned.slots, owned.heap.Holds slot.data .entityData)
    (distinct : (owned.slots.map Slot.data).Nodup) :
    (owned.add spawning).heap.Extends owned.heap ∧
      (∀ slot ∈ (owned.add spawning).slots, (owned.add spawning).heap.Holds slot.data .entityData) ∧
      ((owned.add spawning).slots.map Slot.data).Nodup := by
  have withData := Ledger.create_extends owned.heap ObjectKind.entityData
  have withRecord := Ledger.create_extends (owned.heap.create .entityData).2 ObjectKind.entityRecord
  refine ⟨withRecord.trans withData, ?_, ?_⟩
  · intro slot member
    rcases List.mem_append.mp member with old | new
    · exact (withRecord.trans withData).holds (data slot old)
    · rw [List.mem_singleton.mp new]
      exact withRecord.holds (Ledger.create_holds ..)
  · change ((owned.slots ++ [_]).map Slot.data).Nodup
    rw [List.map_append, List.map_singleton, List.nodup_append]
    refine ⟨distinct, List.nodup_singleton _, ?_⟩
    rintro old member _ new rfl
    -- The new data lies behind everything that was created.
    obtain ⟨slot, held, same⟩ := List.mem_map.mp member
    have behind := (data slot held).lt
    rw [same, List.mem_singleton.mp new] at behind
    exact absurd behind (Nat.lt_irrefl _)

structure SpawnsOwned (before : Heap) (owned : OwnedSpawning K) : Prop where
  grown : owned.heap.Extends before
  data : ∀ slot ∈ owned.slots, owned.heap.Holds slot.data .entityData
  distinct : (owned.slots.map Slot.data).Nodup

theorem spawnCellOwned_spawns {objects : List ObjectConfig} {before : Heap} {owned next : OwnedSpawning K}
    {cell : Nat × Nat × Int} (spawns : SpawnsOwned before owned)
    (taken : spawnCellOwned objects owned cell = .ok next) : SpawnsOwned before next := by
  obtain ⟨spawning, _, same⟩ := bind_ok_iff.mp taken
  cases same
  split
  · obtain ⟨added, data, distinct⟩ := add_owned spawning spawns.data spawns.distinct
    exact ⟨added.trans spawns.grown, data, distinct⟩
  · exact ⟨spawns.grown, spawns.data, spawns.distinct⟩

theorem getMapOwned_some {loads : Bytes → Bool} {file : Option Json} {heap : Heap} {map : OwnedMap K}
    (read : getMapOwned loads file heap = .ok (some map)) :
    (∃ stored, loadLevelFile file = .ok (some stored)) ∧ map.heap.Extends heap ∧
      FreshPointers heap map.heap map.held := by
  obtain ⟨answer, parsed, rest⟩ := bind_ok_iff.mp read
  cases answer with
  | none => cases rest
  | some stored =>
    obtain ⟨config, _, rest⟩ := bind_ok_iff.mp rest
    obtain ⟨owned, spawned, rest⟩ := bind_ok_iff.mp rest
    obtain ⟨textures, _, same⟩ := bind_ok_iff.mp rest
    cases same
    have withLevel := Ledger.create_extends heap ObjectKind.levelConfig
    have withManager := Ledger.create_extends (heap.create .levelConfig).2 ObjectKind.entityManager
    let start := ((heap.create .levelConfig).2.create .entityManager).2
    have initial : SpawnsOwned start (⟨⟨createEntityManager 10, 0⟩, start, []⟩ : OwnedSpawning K) :=
      ⟨.refl _, fun _ member => absurd member List.not_mem_nil, List.nodup_nil⟩
    have spawns : SpawnsOwned start owned := foldlM_invariant (SpawnsOwned start)
      (fun state cell _ next spawns taken => spawnCellOwned_spawns spawns taken) initial spawned
    refine ⟨⟨stored, parsed⟩, spawns.grown.trans (withManager.trans withLevel), ⟨?_, ?_⟩, ?_, spawns.data, spawns.distinct⟩
    · exact spawns.grown.holds (Ledger.create_holds ..)
    · exact withLevel.created.length_le
    · intro level same
      cases same
      exact (spawns.grown.trans withManager).holds (Ledger.create_holds ..)

theorem getMapOwned_none {loads : Bytes → Bool} {file : Option Json} {heap : Heap}
    (read : getMapOwned loads file heap = .ok (none : Option (OwnedMap K))) : loadLevelFile file = .ok none := by
  obtain ⟨answer, parsed, rest⟩ := bind_ok_iff.mp read
  cases answer with
  | none => exact parsed
  | some stored =>
    obtain ⟨config, _, rest⟩ := bind_ok_iff.mp rest
    obtain ⟨owned, _, rest⟩ := bind_ok_iff.mp rest
    obtain ⟨textures, _, same⟩ := bind_ok_iff.mp rest
    cases same

inductive Stepped (owned : OwnedEngine K) (event : EngineEvent K) : OwnedEngine K → Prop where
  | quiet {engine : EngineContext K} : LoadsNothing owned.engine event → Stepped owned event { owned with engine }
  | refused {engine : EngineContext K} : LoadsNothing owned.engine event →
      Stepped owned event ⟨engine, { owned.held with currentMap := none }, owned.heap⟩
  | loaded {engine : EngineContext K} {held : Pointers} {heap : Heap} : ¬ LoadsNothing owned.engine event →
      heap.Extends owned.heap → FreshPointers owned.heap heap held → Stepped owned event ⟨engine, held, heap⟩

theorem loadsLevel_iff {engine middle : EngineContext K} {input : FrameInput K} (alive : engine.gameState ≠ .exit)
    (updated : engineUpdate engine input = .ok middle) :
    LoadsLevel engine input ↔ middle.gameState = .stop ∧ ∃ path stored,
      pickedLevel middle.menu input.click = some path ∧ loadLevelFile (input.files path) = .ok (some stored) := by
  constructor
  · rintro ⟨_, other, path, stored, also, stopped, picked, parsed⟩
    cases updated.symm.trans also
    exact ⟨stopped, path, stored, picked, parsed⟩
  · rintro ⟨stopped, path, stored, picked, parsed⟩
    exact ⟨alive, middle, path, stored, updated, stopped, picked, parsed⟩

theorem loadsNothing_frame {engine : EngineContext K} {input : FrameInput K} :
    LoadsNothing engine (.frame input) ↔ ¬ LoadsLevel engine input := by
  constructor
  · exact fun quiet => quiet input rfl
  · rintro quiet _ same
    cases same
    exact quiet

theorem drawOwned_stepped {owned next : OwnedEngine K} {engine : EngineContext K} {input : FrameInput K}
    (alive : owned.engine.gameState ≠ .exit) (updated : engineUpdate owned.engine input = .ok engine)
    (drawn : engineDrawOwned { owned with engine } input = .ok next) : Stepped owned (.frame input) next := by
  have loads := loadsLevel_iff alive updated
  unfold engineDrawOwned at drawn
  split at drawn
  · rename_i listed
    obtain ⟨stopped, active⟩ := listed
    unfold drawLevelListOwned at drawn
    dsimp only at drawn
    split at drawn
    · rename_i named
      have picked : pickedLevel engine.menu input.click = some _ := if_pos ⟨active, named⟩
      obtain ⟨answer, read, rest⟩ := bind_ok_iff.mp drawn
      cases answer with
      | none =>
        cases rest
        refine .refused (loadsNothing_frame.mpr fun level => ?_)
        obtain ⟨_, path, stored, alsoPicked, parsed⟩ := loads.mp level
        cases picked.symm.trans alsoPicked
        cases (getMapOwned_none read).symm.trans parsed
      | some map =>
        obtain ⟨started, _, same⟩ := bind_ok_iff.mp rest
        cases same
        obtain ⟨⟨stored, parsed⟩, extend, fresh⟩ := getMapOwned_some read
        refine .loaded (fun quiet => loadsNothing_frame.mp quiet ?_) extend fresh
        exact loads.mpr ⟨stopped, _, stored, picked, parsed⟩
    · rename_i unnamed
      cases drawn
      refine .quiet (loadsNothing_frame.mpr fun level => ?_)
      obtain ⟨_, path, stored, picked, _⟩ := loads.mp level
      have none : pickedLevel engine.menu input.click = none := if_neg fun both => unnamed both.2
      cases none.symm.trans picked
  · rename_i other
    obtain ⟨shown, _, same⟩ := bind_ok_iff.mp drawn
    cases same
    refine .quiet (loadsNothing_frame.mpr fun level => ?_)
    obtain ⟨stopped, path, stored, picked, _⟩ := loads.mp level
    have inactive : ¬ engine.menu.levelSelectActive = true := fun active => other ⟨stopped, active⟩
    have none : pickedLevel engine.menu input.click = none := if_neg fun both => inactive both.1
    cases none.symm.trans picked

theorem stepped_of_ok {owned next : OwnedEngine K} {event : EngineEvent K}
    (taken : engineStepOwned owned event = .ok next) : Stepped owned event next := by
  cases event with
  | frame input =>
    rw [engineStepOwned] at taken
    split at taken
    · rename_i finished
      cases taken
      exact .quiet (loadsNothing_frame.mpr fun level => level.1 finished)
    · rename_i alive
      obtain ⟨engine, updated, drawn⟩ := bind_ok_iff.mp taken
      exact drawOwned_stepped alive updated drawn
  | doorMessage doorId state =>
    cases taken
    exact .quiet fun _ same => by cases same
  | connectionFailed =>
    cases taken
    exact .quiet fun _ same => by cases same

/-- Nothing is released before the shutdown, and the pointers are what they claim to be. -/
structure Accounted (owned : OwnedEngine K) : Prop where
  unreleased : owned.heap.released = []
  manager : owned.heap.Holds owned.held.entityManager .entityManager
  level : ∀ map, owned.held.currentMap = some map → owned.heap.Holds map .levelConfig
  data : ∀ slot ∈ owned.held.slots, owned.heap.Holds slot.data .entityData
  distinct : (owned.held.slots.map Slot.data).Nodup

theorem engineInitOwned_accounted (menu : Menu) (width height : Int) :
    Accounted (engineInitOwned menu width height : OwnedEngine K) :=
  ⟨rfl, rfl, nofun, fun _ member => absurd member List.not_mem_nil, List.nodup_nil⟩

theorem Stepped.accounted {owned next : OwnedEngine K} {event : EngineEvent K} (stepped : Stepped owned event next)
    (accounted : Accounted owned) : Accounted next := by
  obtain ⟨unreleased, manager, level, data, distinct⟩ := accounted
  cases stepped with
  | quiet _ => exact ⟨unreleased, manager, level, data, distinct⟩
  | refused _ => exact ⟨unreleased, manager, nofun, data, distinct⟩
  | loaded _ grown fresh =>
    exact ⟨grown.released.trans unreleased, fresh.manager.1, fresh.level, fresh.data, fresh.distinct⟩

theorem run_accounted {owned last : OwnedEngine K} {events : List (EngineEvent K)} (accounted : Accounted owned)
    (reached : run engineStepOwned owned events = .ok last) : Accounted last :=
  run_keeps Accounted (fun _ _ _ accounted taken => (stepped_of_ok taken).accounted accounted) accounted reached

omit [Scalar K] in
theorem destroyEntity_eq (slots : List Slot) (heap : Heap) :
    destroyEntity slots heap = { heap with released := heap.released ++ slots.map Slot.data } := by
  induction slots generalizing heap with
  | nil => simp [destroyEntity]
  | cons slot rest ih =>
    rw [destroyEntity, List.foldl_cons]
    exact (ih (heap.release slot.data)).trans (by simp [Ledger.release])

omit [Scalar K] in
theorem engineShutdown_eq (owned : OwnedEngine K) : engineShutdown owned = { owned.heap with
    released := owned.heap.released ++
      (owned.held.slots.map Slot.data ++ owned.held.entityManager :: owned.held.currentMap.toList) } := by
  rw [engineShutdown, destroyEntity_eq]
  cases owned.held.currentMap <;> simp [Ledger.release]

omit [Scalar K] in
/-- No object is released twice, whatever was loaded. -/
theorem engineShutdown_releases_once {owned : OwnedEngine K} (accounted : Accounted owned) :
    (engineShutdown owned).released.Nodup := by
  rw [engineShutdown_eq, accounted.unreleased, List.nil_append, List.nodup_append]
  refine ⟨accounted.distinct, ?_, ?_⟩
  · cases found : owned.held.currentMap with
    | none => exact List.nodup_singleton _
    | some map =>
      refine List.nodup_cons.mpr ⟨fun same => ?_, List.nodup_singleton _⟩
      have level := accounted.level map found
      rw [← List.mem_singleton.mp same] at level
      cases accounted.manager.same_kind level
  · rintro _ member other there rfl
    obtain ⟨slot, held, rfl⟩ := List.mem_map.mp member
    have data := accounted.data slot held
    rcases List.mem_cons.mp there with same | level
    · rw [same] at data
      cases data.same_kind accounted.manager
    · have holds := accounted.level slot.data (Option.mem_toList.mp level)
      cases data.same_kind holds

omit [Scalar K] in
theorem engineShutdown_keeps_records {owned : OwnedEngine K} (accounted : Accounted owned) {record : Nat}
    (created : owned.heap.Holds record .entityRecord) : record ∉ (engineShutdown owned).released := by
  rw [engineShutdown_eq, accounted.unreleased, List.nil_append, List.mem_append, List.mem_cons]
  rintro (member | rfl | level)
  · obtain ⟨slot, held, rfl⟩ := List.mem_map.mp member
    cases created.same_kind (accounted.data slot held)
  · cases created.same_kind accounted.manager
  · cases created.same_kind (accounted.level record (Option.mem_toList.mp level))

/-- After any run the shutdown frees nothing twice and leaves every record behind. -/
theorem shutdown_of_run (menu : Menu) (width height : Int) (events : List (EngineEvent K)) {owned : OwnedEngine K}
    (reached : run engineStepOwned (engineInitOwned menu width height) events = .ok owned) :
    (engineShutdown owned).released.Nodup ∧
      ∀ record, owned.heap.Holds record .entityRecord → record ∉ (engineShutdown owned).released := by
  have accounted := run_accounted (engineInitOwned_accounted menu width height) reached
  exact ⟨engineShutdown_releases_once accounted, fun _ created => engineShutdown_keeps_records accounted created⟩

theorem run_quiet (owned : OwnedEngine K) {last : OwnedEngine K} {events : List (EngineEvent K)}
    (quiet : Along engineStep LoadsNothing owned.engine events) (blank : owned.held.currentMap = none)
    (reached : run engineStepOwned owned events = .ok last) : last.heap = owned.heap ∧ last.held = owned.held := by
  induction events generalizing owned with
  | nil =>
    cases reached
    exact ⟨rfl, rfl⟩
  | cons event rest ih =>
    obtain ⟨next, taken, remaining⟩ := run_cons_ok_iff.mp reached
    have erased : engineStep owned.engine event = .ok next.engine := by
      rw [← engineStepOwned_erases, taken]
      rfl
    have later := quiet.2 next.engine erased
    cases stepped_of_ok taken with
    | @quiet engine _ => exact ih { owned with engine } later blank remaining
    | @refused engine _ =>
      have same : { owned.held with currentMap := none } = owned.held := by rw [← blank]
      obtain ⟨sameHeap, sameHeld⟩ := ih ⟨engine, { owned.held with currentMap := none }, owned.heap⟩ later rfl remaining
      exact ⟨sameHeap, sameHeld.trans same⟩
    | loaded loads => exact absurd quiet.1 loads

/-- Once a level was loaded there are two managers. -/
theorem two_managers_of_load {owned last : OwnedEngine K} {events : List (EngineEvent K)} (accounted : Accounted owned)
    (loads : ¬ Along engineStep LoadsNothing owned.engine events)
    (reached : run engineStepOwned owned events = .ok last) :
    ∃ front back middle, events = front ++ back ∧ run engineStepOwned owned front = .ok middle ∧
      ¬ middle.heap.AtMostOne .entityManager := by
  induction events generalizing owned with
  | nil => exact absurd trivial loads
  | cons event rest ih =>
    obtain ⟨next, taken, remaining⟩ := run_cons_ok_iff.mp reached
    have erased : engineStep owned.engine event = .ok next.engine := by
      rw [← engineStepOwned_erases, taken]
      rfl
    have later (quiet : LoadsNothing owned.engine event) :
        ∃ front back middle, event :: rest = front ++ back ∧ run engineStepOwned owned front = .ok middle ∧
          ¬ middle.heap.AtMostOne .entityManager := by
      obtain ⟨front, back, middle, rfl, reachedMiddle, two⟩ := ih ((stepped_of_ok taken).accounted accounted)
        (fun along => loads ⟨quiet, fun other same => by
          cases erased.symm.trans same
          exact along⟩) remaining
      exact ⟨event :: front, back, middle, rfl, (run_cons_of_ok taken front).trans reachedMiddle, two⟩
    have stepped := stepped_of_ok taken
    cases stepped with
    | quiet quiet => exact later quiet
    | refused quiet => exact later quiet
    | @loaded engine held heap _ grown fresh =>
      refine ⟨[event], rest, ⟨engine, held, heap⟩, rfl, run_cons_of_ok taken [], fun atMostOne => ?_⟩
      -- The manager from before is still there, beside the new one.
      have old : heap.Live owned.held.entityManager .entityManager :=
        grown.live ⟨accounted.manager, by rw [accounted.unreleased]; exact List.not_mem_nil⟩
      have new : heap.Live held.entityManager .entityManager :=
        ⟨fresh.manager.1, by rw [grown.released, accounted.unreleased]; exact List.not_mem_nil⟩
      have behind := accounted.manager.lt
      rw [atMostOne _ _ old new] at behind
      exact absurd behind (Nat.not_lt_of_le fresh.manager.2)

theorem releasesAll_of_quiet {menu : Menu} {width height : Int} {events : List (EngineEvent K)}
    (quiet : Along engineStep LoadsNothing (engineInit menu width height) events) :
    ReleasesAll (engineInitOwned menu width height) events := by
  have one (kind : ObjectKind) : (⟨[.entityManager], []⟩ : Heap).AtMostOne kind := by
    intro first second live also
    have bound := live.holds.lt
    have other := also.holds.lt
    simp only [List.length_singleton] at bound other
    omega
  constructor
  · rintro front back owned rfl reached
    have quietFront := along_append quiet
    obtain ⟨same, -⟩ := run_quiet (engineInitOwned menu width height) quietFront rfl reached
    rw [same]
    exact ⟨one _, one _⟩
  · intro owned reached
    obtain ⟨heap, held⟩ := run_quiet (engineInitOwned menu width height) quiet rfl reached
    rw [engineShutdown_eq, heap, held]
    intro object bound
    have first : object = 0 := Nat.lt_one_iff.mp bound
    subst first
    rfl

/-- The engine releases what it created, one level at a time, exactly when no level is
loaded at all. -/
theorem releasesAll_iff (menu : Menu) (width height : Int) (events : List (EngineEvent K)) {final : EngineContext K}
    (reached : run engineStep (engineInit menu width height) events = .ok final) :
    ReleasesAll (engineInitOwned menu width height) events ↔
      Along engineStep LoadsNothing (engineInit menu width height) events := by
  constructor
  · intro releases
    by_contra loads
    obtain ⟨last, reachedOwned, -⟩ := run_owned (engineInitOwned menu width height) reached
    obtain ⟨front, back, middle, whole, reachedMiddle, two⟩ :=
      two_managers_of_load (engineInitOwned_accounted menu width height) loads reachedOwned
    exact two (releases.oneAtATime front back middle whole reachedMiddle).1
  · exact releasesAll_of_quiet

def missingFrame (click : Click Rat) : FrameInput Rat := { clickFrame .null click with files := fun _ => none }

/-- A level is picked and its file is missing. -/
theorem missingLevel_releasesAll_iff :
    ReleasesAll (engineInitOwned smallMenu 1280 720)
        [.frame (missingFrame (some ⟨510, 310⟩)), .frame (missingFrame (some ⟨30, 50⟩))] ↔
      Along engineStep LoadsNothing (engineInit smallMenu 1280 720)
        [.frame (missingFrame (some ⟨510, 310⟩)), .frame (missingFrame (some ⟨30, 50⟩))] := by
  have played : succeedsWith (fun _ => True) (run engineStep (engineInit smallMenu 1280 720)
      [.frame (missingFrame (some ⟨510, 310⟩)), .frame (missingFrame (some ⟨30, 50⟩))]) = true := by decide +kernel
  obtain ⟨final, reached, -⟩ := exists_ok_of_succeedsWith played
  exact releasesAll_iff smallMenu 1280 720 _ reached

/-- One level is started: the manager of `engine_init` is lost. -/
theorem startedLevel_not_releasesAll :
    (∃ final, run engineStep (engineInit smallMenu 1280 720) (startFirstLevel (smallLevel "player")) = .ok final) ∧
      ¬ ReleasesAll (engineInitOwned smallMenu 1280 720) (startFirstLevel (smallLevel "player")) := by
  have played : succeedsWith (fun _ => True) (run engineStep (engineInit smallMenu 1280 720)
      (startFirstLevel (smallLevel "player"))) = true := by decide +kernel
  obtain ⟨final, reached, -⟩ := exists_ok_of_succeedsWith played
  have loads : ¬ Along engineStep LoadsNothing (engineInit smallMenu 1280 720)
      (startFirstLevel (smallLevel "player")) := by
    intro quiet
    have listed : succeedsWith (fun engine : EngineContext Rat => engine.gameState = .stop ∧
        engine.session.temuRun = false ∧ (pickedLevel engine.menu (some ⟨30, 50⟩ : Click Rat)).isSome = true)
        (engineStep (engineInit smallMenu 1280 720) (.frame (clickFrame (smallLevel "player") (some ⟨510, 310⟩)))) =
        true := by decide +kernel
    obtain ⟨engine, taken, stopped, closed, picks⟩ := exists_ok_of_succeedsWith listed
    obtain ⟨path, picked⟩ := Option.isSome_iff_exists.mp picks
    have parsed : succeedsWith (fun answer => answer.isSome = true) (loadLevelFile (some (smallLevel "player"))) =
        true := by decide +kernel
    obtain ⟨answer, read, found⟩ := exists_ok_of_succeedsWith parsed
    obtain ⟨stored, rfl⟩ := Option.isSome_iff_exists.mp found
    have idle : engineUpdate engine (clickFrame (smallLevel "player") (some ⟨30, 50⟩)) = .ok engine := by
      simp [engineUpdate, closed, stopped]
    have second := loadsNothing_frame.mp (quiet.2 engine taken).1
    exact second ⟨by simp [stopped], engine, path, stored, idle, stopped, picked, read⟩
  refine ⟨⟨final, reached⟩, fun releases => ?_⟩
  obtain ⟨last, reachedOwned, -⟩ := run_owned (engineInitOwned smallMenu 1280 720) reached
  obtain ⟨front, back, middle, whole, reachedMiddle, two⟩ :=
    two_managers_of_load (engineInitOwned_accounted smallMenu 1280 720) loads reachedOwned
  exact two (releases.oneAtATime front back middle whole reachedMiddle).1

end Trigger.Engine
