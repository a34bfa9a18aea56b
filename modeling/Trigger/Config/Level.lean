import Trigger.Config.Json
import Trigger.Foundation.Fallible
import Trigger.Foundation.Grid
import Mathlib.Data.List.Nodup

/-! Level configurations and the loader that reads them from a parsed file.

`LoadedConfig` is what the loader leaves in memory: `malloc` does not clear, so
a part that no branch writes stays unassigned. A `LevelConfig` has every part.
Allocations succeed throughout.
-/

set_option autoImplicit false

namespace Trigger.Config
open Foundation

structure ObjectConfig where
  id : Int
  name : CharArray 256
  texture : CharArray 256
  entity : CharArray 256
  deriving DecidableEq

abbrev MapLayout := Grid Int

@[ext] structure LevelConfig where
  name : CharArray 256
  nextLevel : CharArray 256
  textureBackground : CharArray 256
  objects : List ObjectConfig
  layout : MapLayout
  deriving DecidableEq

def LevelConfig.countObjects (config : LevelConfig) : Nat := config.objects.length

/-- The loop that stops at the first object with the id. -/
def objectById (objects : List ObjectConfig) (id : Int) : Option ObjectConfig :=
  objects.find? fun object => object.id = id

section
variable {objects : List ObjectConfig} {object : ObjectConfig}

/-- The object found is the first with the id. -/
theorem objectById_eq_some_iff {id : Int} : objectById objects id = some object ↔
    object.id = id ∧ ∃ before after, objects = before ++ object :: after ∧ ∀ other ∈ before, other.id ≠ id := by
  simp [objectById, List.find?_eq_some_iff_append]

theorem objectById_eq_none_iff {id : Int} : objectById objects id = none ↔ ∀ object ∈ objects, object.id ≠ id := by
  simp [objectById]

theorem objectById_of_unique (distinct : (objects.map ObjectConfig.id).Nodup) (member : object ∈ objects) :
    objectById objects object.id = some object := by
  obtain ⟨before, after, rfl⟩ := List.append_of_mem member
  refine objectById_eq_some_iff.mpr ⟨rfl, before, after, rfl, fun other earlier same => ?_⟩
  rw [List.map_append, List.map_cons] at distinct
  have apart := (List.nodup_append.mp distinct).2.2 other.id (List.mem_map_of_mem earlier)
  exact apart object.id (List.mem_cons_self ..) same

end

/-- Every object carries its position as its id. -/
def Numbered (objects : List ObjectConfig) : Prop :=
  ∀ (k : Nat) object, objects[k]? = some object → object.id = k

theorem Numbered.distinct {objects : List ObjectConfig} (numbered : Numbered objects) :
    (objects.map ObjectConfig.id).Nodup := by
  have positions : objects.map ObjectConfig.id =
      (List.range objects.length).map fun (k : Nat) => (k : Int) := by
    refine List.ext_getElem (by simp) fun k left right => ?_
    rw [List.length_map] at left
    simpa using numbered k objects[k] (List.getElem?_eq_getElem left)
  rw [positions]
  exact List.Nodup.map (fun _ _ same => Int.ofNat_inj.mp same) List.nodup_range

theorem Numbered.objectById {objects : List ObjectConfig} (numbered : Numbered objects) {k : Nat}
    {object : ObjectConfig} (found : objects[k]? = some object) : objectById objects k = some object := by
  rw [← numbered k object found]
  exact objectById_of_unique numbered.distinct (List.mem_of_getElem? found)

/-! ## What the loader leaves in memory -/

@[ext] structure LoadedObject where
  id : Option Int
  name : Option (CharArray 256)
  texture : Option (CharArray 256)
  entity : Option (CharArray 256)

@[ext] structure LoadedLayout where
  rows : Option Int
  cols : Option Int
  data : Option (List (List (Option Int)))

/-- The strings are cleared by `memset`, and a missing table is the null pointer
with count zero. -/
@[ext] structure LoadedConfig where
  name : CharArray 256
  nextLevel : CharArray 256
  textureBackground : CharArray 256
  objects : List LoadedObject
  layout : LoadedLayout

def emptyString : CharArray 256 := CharArray.empty room256

/-- `strcpy` from the `valuestring` of an item that was found. -/
def copyValuestring : Option Json → Except Fault (Option (CharArray 256))
  | none => .ok none
  | some item =>
    match item.valuestring with
    | none => .error .nullPointer
    | some source => (strcpy source).map some

def loadObject (obj : Json) : Except Fault LoadedObject := do
  let name ← copyValuestring (obj.getObjectItem (text "name"))
  let texture ← copyValuestring (obj.getObjectItem (text "texture"))
  let entity ← copyValuestring (obj.getObjectItem (text "entity"))
  return { id := (obj.getObjectItem (text "id")).map Json.valueint, name, texture, entity }

def loadObjects (tiles : Option Json) : Except Fault (List LoadedObject) :=
  match tiles with
  | some (.array items) => items.mapM loadObject
  | _ => .ok []

structure LoadedInfo where
  name : CharArray 256
  nextLevel : CharArray 256
  textureBackground : CharArray 256

def loadInfo (levelInfo : Option Json) : Except Fault LoadedInfo :=
  match levelInfo with
  | none => .ok ⟨emptyString, emptyString, emptyString⟩
  | some info => do
    let name ← copyValuestring (info.getObjectItem (text "name"))
    let background ← copyValuestring (info.getObjectItem (text "background"))
    let nextLevel ← copyValuestring (info.getObjectItem (text "next_level"))
    return ⟨name.getD emptyString, nextLevel.getD emptyString, background.getD emptyString⟩

/-- `item->valueint` without a check of `item`. -/
def derefValueint : Option Json → Except Fault Int
  | some item => .ok item.valueint
  | none => .error .nullPointer

/-- A row that is not an array is left as `malloc` returned it. -/
def loadRow (cols : Nat) (row : Option Json) : Except Fault (List (Option Int)) :=
  match row with
  | some (.array items) =>
    (List.range cols).mapM fun j => (derefValueint items[j]?).map some
  | _ => .ok (List.replicate cols none)

def loadSize (size : Option Json) : Except Fault (Option (Int × Int)) :=
  match size with
  | none => .ok none
  | some size => do
    let rows ← derefValueint (size.getObjectItem (text "rows"))
    let cols ← derefValueint (size.getObjectItem (text "cols"))
    return some (rows, cols)

/-- The loops run up to `rows` and `cols`, so not at all for a negative bound. -/
def loadData (size : Option (Int × Int)) (array : Option Json) :
    Except Fault (Option (List (List (Option Int)))) :=
  match array with
  | some (.array items) =>
    match size with
    | none => .error .indeterminate
    | some (rows, cols) =>
      ((List.range rows.toNat).mapM fun i => loadRow cols.toNat items[i]?).map some
  | _ => .ok none

def loadLayout (mapData : Option Json) : Except Fault LoadedLayout :=
  match mapData with
  | none => .ok ⟨none, none, none⟩
  | some mapData => do
    let size ← loadSize (mapData.getObjectItem (text "size"))
    let data ← loadData size (mapData.getObjectItem (text "data"))
    return ⟨size.map (·.1), size.map (·.2), data⟩

/-- The body of `load_level_config` after a successful parse. -/
def loadLevelConfig (json : Json) : Except Fault LoadedConfig := do
  let info ← loadInfo (json.getObjectItem (text "level_info"))
  let objects ← loadObjects (json.getObjectItem (text "objects"))
  let layout ← loadLayout (json.getObjectItem (text "map"))
  return ⟨info.name, info.nextLevel, info.textureBackground, objects, layout⟩

/-- `load_level_config` of a file name: a file that cannot be opened or parsed gives null. -/
def loadLevelFile (file : Option Json) : Except Fault (Option LoadedConfig) :=
  match file with
  | none => .ok none
  | some json => (loadLevelConfig json).map some

def LoadedObject.ofConfig (object : ObjectConfig) : LoadedObject :=
  ⟨some object.id, some object.name, some object.texture, some object.entity⟩

def LoadedLayout.ofConfig (layout : MapLayout) : LoadedLayout :=
  ⟨some layout.rows, some layout.cols, some (layout.data.map (List.map some))⟩

def LoadedConfig.ofConfig (config : LevelConfig) : LoadedConfig :=
  ⟨config.name, config.nextLevel, config.textureBackground,
    config.objects.map LoadedObject.ofConfig, LoadedLayout.ofConfig config.layout⟩

theorem LoadedObject.ofConfig_injective : Function.Injective LoadedObject.ofConfig := by
  intro first second same
  cases first
  cases second
  simp_all [LoadedObject.ofConfig]

theorem LoadedLayout.ofConfig_injective : Function.Injective LoadedLayout.ofConfig := by
  intro first second same
  simp only [LoadedLayout.ofConfig, LoadedLayout.mk.injEq, Option.some.injEq] at same
  have cells := (List.map_injective_iff.mpr
    (List.map_injective_iff.mpr fun _ _ => Option.some.inj)) same.2.2
  exact Grid.ext (Int.ofNat_inj.mp same.2.1) cells

theorem LoadedConfig.ofConfig_injective : Function.Injective LoadedConfig.ofConfig := by
  intro first second same
  cases first
  cases second
  simp only [LoadedConfig.ofConfig, LoadedConfig.mk.injEq] at same
  obtain ⟨rfl, rfl, rfl, objects, layout⟩ := same
  cases List.map_injective_iff.mpr LoadedObject.ofConfig_injective objects
  cases LoadedLayout.ofConfig_injective layout
  rfl

/-- A read of memory that may never have been written. -/
def assigned {A : Type} : Option A → Except Fault A
  | some value => .ok value
  | none => .error .indeterminate

def LoadedObject.read (object : LoadedObject) : Except Fault ObjectConfig := do
  let id ← assigned object.id
  let name ← assigned object.name
  let texture ← assigned object.texture
  let entity ← assigned object.entity
  return ⟨id, name, texture, entity⟩

def LoadedLayout.readCell (layout : LoadedLayout) (i j : Nat) : Except Fault Int := do
  let data ← assigned layout.data
  assigned (data[i]?.bind fun row => row[j]?.join)

/-- The cells two nested loops over `rows` and `cols` reach. -/
def LoadedLayout.read (layout : LoadedLayout) : Except Fault MapLayout := do
  let rows ← assigned layout.rows
  let cols ← assigned layout.cols
  let data ← (List.range rows.toNat).mapM fun i => (List.range cols.toNat).mapM fun j => layout.readCell i j
  if rectangular : ∀ row ∈ data, row.length = cols.toNat then return ⟨cols.toNat, data, rectangular⟩
  else .error .outOfBounds

/-- What the game reads of a configuration: the loader prints every object, and
the scan for entities visits every cell. -/
def LoadedConfig.read (config : LoadedConfig) : Except Fault LevelConfig := do
  let objects ← config.objects.mapM LoadedObject.read
  let layout ← config.layout.read
  return ⟨config.name, config.nextLevel, config.textureBackground, objects, layout⟩

end Trigger.Config
