import Trigger.Editor.Saved
import Mathlib.Data.Int.Order.Basic

/-! Saving a level and loading the file gives the level back, cropped and renumbered. -/

set_option autoImplicit false

namespace Trigger.Editor
open Foundation Config

/-- What a saved level keeps of the edited one, over the box it is cropped to. -/
structure SavesAs (config saved : LevelConfig) (top bottom left right : Nat) : Prop where
  name : saved.name = config.name
  background : saved.textureBackground = config.textureBackground
  nextLevel : saved.nextLevel = config.nextLevel
  box : SmallestBox config.layout top bottom left right
  rows : (saved.layout.rows : Int) = bottom - top + 1
  cols : (saved.layout.cols : Int) = right - left + 1
  cells : ∀ i j, i < saved.layout.rows → j < saved.layout.cols →
    (config.layout.get? (top + i) (left + j)).isSome ∧ (saved.layout.get? i j).isSome
  positions : Numbered saved.objects
  inTable : ∀ i j id, saved.layout.get? i j = some id → 0 ≤ id ∧ id < saved.objects.length
  sameIds : ∀ i j i' j' old old' id id',
    config.layout.get? (top + i) (left + j) = some old → saved.layout.get? i j = some id →
    config.layout.get? (top + i') (left + j') = some old' → saved.layout.get? i' j' = some id' →
    (id = id' ↔ old = old') ∧ (id < id' ↔ old < old')
  objects : ∀ i j old id,
    config.layout.get? (top + i) (left + j) = some old → saved.layout.get? i j = some id →
    ∃ object, saved.objects[id.toNat]? = some object ∧
      match objectById config.objects old with
      | some src => object.name = src.name ∧ object.entity = src.entity ∧
          object.texture = stripParent src.texture
      | none => object.name = unknownName ∧ object.entity = emptyString ∧
          object.texture = emptyString

theorem newObjects_getElem? (objects : List ObjectConfig) (oldIds : List Int) (k : Nat) :
    (newObjects objects oldIds)[k]? = oldIds[k]?.map fun oldId => newObject objects oldId k := by
  simp [newObjects, Option.map_map, Function.comp_def]

theorem newObject_id (objects : List ObjectConfig) (oldId : Int) (k : Nat) :
    (newObject objects oldId k).id = k := by
  unfold newObject
  split <;> rfl

theorem newObjects_numbered (objects : List ObjectConfig) (oldIds : List Int) :
    Numbered (newObjects objects oldIds) := by
  intro k object found
  rw [newObjects_getElem?] at found
  obtain ⟨oldId, _, rfl⟩ := Option.map_eq_some_iff.mp found
  exact newObject_id _ _ _

/-- A cell of the saved map is the rank of the cell it was copied from. -/
theorem savedLayout_cell {layout : MapLayout} (savable : Savable layout) {i j : Nat} {id : Int}
    (found : (savedLayout layout).get? i j = some id) :
    ∃ old, (croppedLayout layout).get? i j = some old ∧ old ∈ usedIn layout ∧
      id = (usedIn layout).idxOf old := by
  rw [savedLayout, Grid.get?_map] at found
  obtain ⟨old, foundOld, rfl⟩ := Option.map_eq_some_iff.mp found
  exact ⟨old, foundOld, (mem_usedIn_iff savable).mpr ⟨i, j, foundOld⟩, rfl⟩

theorem ranks_compare {layout : MapLayout} {old old' : Int} (member : old ∈ usedIn layout)
    (member' : old' ∈ usedIn layout) :
    (((usedIn layout).idxOf old : Int) = (usedIn layout).idxOf old' ↔ old = old') ∧
      (((usedIn layout).idxOf old : Int) < (usedIn layout).idxOf old' ↔ old < old') := by
  have increasing : (usedIn layout).Pairwise (· < ·) := oldIdsSorted_increasing _
  exact ⟨by rw [Int.ofNat_inj, List.idxOf_inj member],
    by rw [Int.ofNat_lt, idxOf_lt_idxOf_iff increasing member member']⟩

theorem newObjects_at_rank (objects : List ObjectConfig) {oldIds : List Int} {old : Int} (member : old ∈ oldIds) :
    ∃ object, (newObjects objects oldIds)[oldIds.idxOf old]? = some object ∧
      match objectById objects old with
      | some src => object.name = src.name ∧ object.entity = src.entity ∧ object.texture = stripParent src.texture
      | none => object.name = unknownName ∧ object.entity = emptyString ∧ object.texture = emptyString := by
  have position := List.idxOf_lt_length_of_mem member
  refine ⟨newObject objects old (oldIds.idxOf old), ?_, ?_⟩
  · rw [newObjects_getElem?, List.getElem?_eq_getElem position, List.getElem_idxOf position, Option.map_some]
  · unfold newObject
    cases objectById objects old with
    | some src => exact ⟨rfl, rfl, rfl⟩
    | none => exact ⟨rfl, rfl, rfl⟩

theorem savesAs_savedConfig {config : LevelConfig} (savable : Savable config.layout) :
    ∃ top bottom left right, SavesAs config (savedConfig config) top bottom left right := by
  obtain ⟨top, bottom, left, right, box, ordered, bottomInside, across, rightInside, _, height, width,
    cells⟩ := croppedLayout_spec savable
  have rows : (savedLayout config.layout).rows = bottom - top + 1 := by
    rw [savedLayout, Grid.rows_map, height]
  have cols : (savedLayout config.layout).cols = right - left + 1 := by
    rw [savedLayout, Grid.cols_map, width]
  -- Both maps speak of the same cell of the box.
  have copied {i j : Nat} {old id : Int} (found : config.layout.get? (top + i) (left + j) = some old)
      (saved : (savedLayout config.layout).get? i j = some id) :
      old ∈ usedIn config.layout ∧ id = (usedIn config.layout).idxOf old := by
    obtain ⟨source, foundSource, member, rank⟩ := savedLayout_cell savable saved
    have inside := Grid.inside_of_get? foundSource
    rw [cells i j (by omega) (by omega), found] at foundSource
    cases foundSource
    exact ⟨member, rank⟩
  have counted : (savedConfig config).objects.length = (usedIn config.layout).length := by
    simp [savedConfig, newObjects]
  refine ⟨top, bottom, left, right, rfl, rfl, rfl, box, ?_, ?_, ?_, newObjects_numbered _ _, ?_, ?_, ?_⟩
  · simp only [savedConfig, rows]; omega
  · simp only [savedConfig, cols]; omega
  · intro i j row col
    simp only [savedConfig, rows, cols] at row col
    rw [Grid.get?_isSome_iff, Grid.get?_isSome_iff]
    simp only [savedConfig, rows, cols]
    omega
  · intro i j id found
    obtain ⟨old, _, member, rfl⟩ := savedLayout_cell savable found
    rw [counted]
    have position := List.idxOf_lt_length_of_mem member
    omega
  · intro i j i' j' old old' id id' found saved found' saved'
    obtain ⟨member, rfl⟩ := copied found saved
    obtain ⟨member', rfl⟩ := copied found' saved'
    exact ranks_compare member member'
  · intro i j old id found saved
    obtain ⟨member, rfl⟩ := copied found saved
    rw [Int.toNat_natCast]
    exact newObjects_at_rank config.objects member

/-- Saving a level and loading the file back keeps the strings, crops the map to
the smallest rectangle around its non-empty cells and renumbers the ids by rank. -/
theorem save_load_round_trip (config : LevelConfig) (rows : 1 ≤ config.layout.rows)
    (cols : 1 ≤ config.layout.cols)
    (cells : ∀ r c value, config.layout.get? r c = some value → 0 ≤ value ∧ value ≤ 255) :
    ∃ file saved top bottom left right, saveLevelConfig config = .ok file ∧
      loadLevelFile (some file) = .ok (some (LoadedConfig.ofConfig saved)) ∧
      SavesAs config saved top bottom left right := by
  have savable : Savable config.layout := ⟨rows, cols, cells⟩
  obtain ⟨top, bottom, left, right, saves⟩ := savesAs_savedConfig savable
  refine ⟨_, _, top, bottom, left, right, saveLevelConfig_eq savable, ?_, saves⟩
  rw [loadLevelFile, loadLevelConfig_configJson, Except.map]

def twoTileLevel : LevelConfig where
  name := ⟨text "two", by decide⟩
  nextLevel := emptyString
  textureBackground := emptyString
  objects := [⟨7, ⟨text "wall", by decide⟩, ⟨text "../resources/wall.png", by decide⟩, emptyString⟩]
  layout := ⟨2, [[0, 7], [0, 4]], by decide⟩

theorem twoTileLevel_round_trip :
    ∃ file saved top bottom left right, saveLevelConfig twoTileLevel = .ok file ∧
      loadLevelFile (some file) = .ok (some (LoadedConfig.ofConfig saved)) ∧
      SavesAs twoTileLevel saved top bottom left right := by
  refine save_load_round_trip twoTileLevel (by decide) (by decide) fun r c value found => ?_
  have all : ∀ cell ∈ twoTileLevel.layout.cells, 0 ≤ cell.2.2 ∧ cell.2.2 ≤ 255 := by decide
  exact all (r, c, value) (Grid.mem_cells.mpr found)

end Trigger.Editor
