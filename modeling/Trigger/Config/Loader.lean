import Trigger.Config.Level

/-! What the loader makes of an arbitrary parsed tree.

The level loads without a fault into a fully assigned configuration exactly for
the trees described by `Loadable`; each part of the tree has its own condition.
-/

set_option autoImplicit false

namespace Trigger.Config
open Foundation

def TextItem (item : Option Json) : Prop :=
  ∃ source : Bytes, item.bind Json.valuestring = some source ∧ source.length < 256

def TextOrAbsent (item : Option Json) : Prop := item = none ∨ TextItem item

def InfoLoadable (levelInfo : Option Json) : Prop :=
  ∀ info ∈ levelInfo, TextOrAbsent (info.getObjectItem (text "name")) ∧
    TextOrAbsent (info.getObjectItem (text "background")) ∧
    TextOrAbsent (info.getObjectItem (text "next_level"))

def ObjectLoadable (obj : Json) : Prop :=
  (∃ id, obj.getObjectItem (text "id") = some id) ∧
    TextItem (obj.getObjectItem (text "name")) ∧
    TextItem (obj.getObjectItem (text "texture")) ∧
    TextItem (obj.getObjectItem (text "entity"))

def ObjectsLoadable (tiles : Option Json) : Prop :=
  ∀ items, tiles = some (.array items) → ∀ obj ∈ items, ObjectLoadable obj

def RowLoadable (cols : Nat) (row : Option Json) : Prop :=
  cols = 0 ∨ ∃ cells, row = some (.array cells) ∧ cols ≤ cells.length

def LayoutLoadable (mapData : Option Json) : Prop :=
  ∃ map size rows cols items, mapData = some map ∧
    map.getObjectItem (text "size") = some size ∧
    size.getObjectItem (text "rows") = some rows ∧
    size.getObjectItem (text "cols") = some cols ∧
    0 ≤ rows.valueint ∧ 0 ≤ cols.valueint ∧
    map.getObjectItem (text "data") = some (.array items) ∧
    ∀ i < rows.valueint.toNat, RowLoadable cols.valueint.toNat items[i]?

/-- Each text that is present is a string of fewer than 256 bytes, each object of
the table is complete, and the map has a size and a data array that covers it. -/
def Loadable (json : Json) : Prop :=
  InfoLoadable (json.getObjectItem (text "level_info")) ∧
    ObjectsLoadable (json.getObjectItem (text "objects")) ∧
    LayoutLoadable (json.getObjectItem (text "map"))

structure LoadedObject.FullyAssigned (object : LoadedObject) : Prop where
  id : object.id.isSome
  name : object.name.isSome
  texture : object.texture.isSome
  entity : object.entity.isSome

/-- The bounds are assigned and not negative, and the data has `rows` rows of
`cols` assigned cells. -/
def LoadedLayout.FullyAssigned (layout : LoadedLayout) : Prop :=
  ∃ rows cols data, layout = ⟨some rows, some cols, some data⟩ ∧ 0 ≤ rows ∧ 0 ≤ cols ∧
    (data.length : Int) = rows ∧
    ∀ row ∈ data, (row.length : Int) = cols ∧ ∀ cell ∈ row, cell.isSome

structure LoadedConfig.FullyAssigned (config : LoadedConfig) : Prop where
  objects : ∀ object ∈ config.objects, object.FullyAssigned
  layout : config.layout.FullyAssigned

/-- No step faults, and the result is null or fully assigned. -/
def LoadsTotally (json : Json) : Prop :=
  ∃ result, loadLevelFile (some json) = .ok result ∧ ∀ config ∈ result, config.FullyAssigned

theorem copyValuestring_ok_some_iff {item : Option Json} :
    (∃ target, copyValuestring item = .ok (some target)) ↔ TextItem item := by
  cases item with
  | none => simp [copyValuestring, TextItem]
  | some item =>
    cases found : item.valuestring with
    | none => simp [copyValuestring, TextItem, found]
    | some source =>
      by_cases fits : source.length < 256
      · simp [copyValuestring, TextItem, found, fits, Except.map]
      · simp [copyValuestring, TextItem, found, fits, Except.map, strcpy]

theorem copyValuestring_ok_none_iff {item : Option Json} :
    copyValuestring item = .ok none ↔ item = none := by
  cases item with
  | none => simp [copyValuestring]
  | some item =>
    cases found : item.valuestring with
    | none => simp [copyValuestring, found]
    | some source =>
      by_cases fits : source.length < 256 <;>
        simp [copyValuestring, found, fits, Except.map, strcpy]

theorem copyValuestring_ok_iff {item : Option Json} :
    (∃ result, copyValuestring item = .ok result) ↔ TextOrAbsent item := by
  rw [TextOrAbsent, ← copyValuestring_ok_none_iff, ← copyValuestring_ok_some_iff]
  constructor
  · rintro ⟨_ | target, copied⟩
    · exact .inl copied
    · exact .inr ⟨target, copied⟩
  · rintro (copied | ⟨target, copied⟩)
    · exact ⟨none, copied⟩
    · exact ⟨some target, copied⟩

theorem loadInfo_ok_iff {levelInfo : Option Json} :
    (∃ info, loadInfo levelInfo = .ok info) ↔ InfoLoadable levelInfo := by
  cases levelInfo with
  | none => simp [loadInfo, InfoLoadable]
  | some info =>
    simp only [loadInfo, InfoLoadable, Option.mem_some_iff, forall_eq', ← copyValuestring_ok_iff,
      bind_ok_iff]
    constructor
    · rintro ⟨_, name, copiedName, background, copiedBackground, next, copiedNext, _⟩
      exact ⟨⟨name, copiedName⟩, ⟨background, copiedBackground⟩, ⟨next, copiedNext⟩⟩
    · rintro ⟨⟨name, copiedName⟩, ⟨background, copiedBackground⟩, ⟨next, copiedNext⟩⟩
      exact ⟨_, name, copiedName, background, copiedBackground, next, copiedNext, rfl⟩

theorem loadObject_ok_iff {obj : Json} :
    (∃ object, loadObject obj = .ok object ∧ object.FullyAssigned) ↔ ObjectLoadable obj := by
  simp only [loadObject, ObjectLoadable, ← copyValuestring_ok_some_iff, bind_ok_iff]
  constructor
  · rintro ⟨_, ⟨name, copiedName, texture, copiedTexture, entity, copiedEntity, same⟩, full⟩
    cases same
    obtain ⟨hasId, hasName, hasTexture, hasEntity⟩ := full
    obtain ⟨name, rfl⟩ := Option.isSome_iff_exists.mp hasName
    obtain ⟨texture, rfl⟩ := Option.isSome_iff_exists.mp hasTexture
    obtain ⟨entity, rfl⟩ := Option.isSome_iff_exists.mp hasEntity
    have found : (obj.getObjectItem (text "id")).isSome := by simpa using hasId
    exact ⟨Option.isSome_iff_exists.mp found, ⟨name, copiedName⟩, ⟨texture, copiedTexture⟩,
      ⟨entity, copiedEntity⟩⟩
  · rintro ⟨⟨id, found⟩, ⟨name, copiedName⟩, ⟨texture, copiedTexture⟩, ⟨entity, copiedEntity⟩⟩
    exact ⟨_, ⟨_, copiedName, _, copiedTexture, _, copiedEntity, rfl⟩, by simp [found], rfl, rfl, rfl⟩

theorem loadObjects_ok_iff {tiles : Option Json} :
    (∃ objects, loadObjects tiles = .ok objects ∧ ∀ object ∈ objects, object.FullyAssigned) ↔
      ObjectsLoadable tiles := by
  unfold loadObjects ObjectsLoadable
  split
  · next items =>
    simp only [Option.some.injEq, Json.array.injEq, forall_eq', ← loadObject_ok_iff]
    exact mapM_ok_forall_iff LoadedObject.FullyAssigned
  · next other =>
    -- Anything but an array leaves the table empty.
    exact ⟨fun _ items same => absurd same (other items), fun _ => ⟨[], rfl, by simp⟩⟩

theorem derefValueint_ok_iff {item : Option Json} {value : Int} :
    derefValueint item = .ok value ↔ ∃ found, item = some found ∧ found.valueint = value := by
  cases item <;> simp [derefValueint]

theorem loadCell_ok_iff {items : List Json} {j : Nat} :
    (∃ cell, (derefValueint items[j]?).map some = .ok cell ∧ cell.isSome) ↔ j < items.length := by
  by_cases inside : j < items.length
  · simp [derefValueint, Except.map, inside]
  · simp [derefValueint, Except.map, inside]

theorem length_of_loadRow {cols : Nat} {row : Option Json} {cells : List (Option Int)}
    (loaded : loadRow cols row = .ok cells) : cells.length = cols := by
  unfold loadRow at loaded
  split at loaded
  · simpa using length_of_mapM_ok loaded
  · cases loaded
    simp

theorem loadRow_ok_iff {cols : Nat} {row : Option Json} :
    (∃ cells, loadRow cols row = .ok cells ∧ ∀ cell ∈ cells, cell.isSome) ↔
      RowLoadable cols row := by
  unfold loadRow RowLoadable
  split
  · next items =>
    rw [mapM_ok_forall_iff fun cell : Option Int => cell.isSome]
    simp only [loadCell_ok_iff, List.mem_range]
    constructor
    · intro each
      cases cols with
      | zero => exact .inl rfl
      | succ cols => exact .inr ⟨items, rfl, each cols (Nat.lt_succ_self cols)⟩
    · rintro (rfl | ⟨cells, same, enough⟩) j inside
      · cases inside
      · cases same
        exact Nat.lt_of_lt_of_le inside enough
  · next other =>
    -- The cells of such a row are left unassigned, so there must be none.
    constructor
    · rintro ⟨cells, same, assigned⟩
      cases same
      cases cols with
      | zero => exact .inl rfl
      | succ cols => simp at assigned
    · rintro (rfl | ⟨cells, same, _⟩)
      · exact ⟨[], rfl, by simp⟩
      · exact absurd same (other cells)

theorem loadSize_ok_some_iff {size : Option Json} {rows cols : Int} :
    loadSize size = .ok (some (rows, cols)) ↔ ∃ found rowsItem colsItem, size = some found ∧
      found.getObjectItem (text "rows") = some rowsItem ∧
      found.getObjectItem (text "cols") = some colsItem ∧
      rowsItem.valueint = rows ∧ colsItem.valueint = cols := by
  cases size with
  | none => simp [loadSize]
  | some found =>
    simp only [loadSize, bind_ok_iff, derefValueint_ok_iff]
    constructor
    · rintro ⟨_, ⟨rowsItem, foundRows, rfl⟩, _, ⟨colsItem, foundCols, rfl⟩, same⟩
      cases same
      exact ⟨found, rowsItem, colsItem, rfl, foundRows, foundCols, rfl, rfl⟩
    · rintro ⟨_, rowsItem, colsItem, same, foundRows, foundCols, rfl, rfl⟩
      cases same
      exact ⟨_, ⟨rowsItem, foundRows, rfl⟩, _, ⟨colsItem, foundCols, rfl⟩, rfl⟩

theorem loadData_ok_some_iff {size : Option (Int × Int)} {array : Option Json}
    {data : List (List (Option Int))} :
    loadData size array = .ok (some data) ↔ ∃ items rows cols, array = some (.array items) ∧
      size = some (rows, cols) ∧
      (List.range rows.toNat).mapM (fun i => loadRow cols.toNat items[i]?) = .ok data := by
  unfold loadData
  split
  · next items =>
    cases size with
    | none => simp
    | some size =>
      obtain ⟨rows, cols⟩ := size
      simp only [Option.some.injEq, Json.array.injEq, Prod.mk.injEq]
      cases loaded : (List.range rows.toNat).mapM fun i => loadRow cols.toNat items[i]? with
      | error fault => simp [Except.map, loaded]
      | ok rowsLoaded => simp [Except.map, loaded]
  · next other =>
    constructor
    · intro same; cases same
    · rintro ⟨items, _, _, same, _⟩
      exact absurd same (other items)

theorem loadRows_ok_iff {rows cols : Int} {items : List Json} (colsBound : 0 ≤ cols) :
    (∃ data, (List.range rows.toNat).mapM (fun i => loadRow cols.toNat items[i]?) = .ok data ∧
      ∀ row ∈ data, (row.length : Int) = cols ∧ ∀ cell ∈ row, cell.isSome) ↔
      ∀ i < rows.toNat, RowLoadable cols.toNat items[i]? := by
  rw [mapM_ok_forall_iff fun row : List (Option Int) => (row.length : Int) = cols ∧ ∀ cell ∈ row, cell.isSome]
  simp only [List.mem_range, ← loadRow_ok_iff]
  refine forall₂_congr fun i _ => exists_congr fun cells => and_congr_right fun loaded => ?_
  have width := length_of_loadRow loaded
  exact and_iff_right (by omega)

theorem loadLayout_ok_iff {mapData : Option Json} :
    (∃ layout, loadLayout mapData = .ok layout ∧ layout.FullyAssigned) ↔
      LayoutLoadable mapData := by
  cases mapData with
  | none => simp [loadLayout, LayoutLoadable, LoadedLayout.FullyAssigned]
  | some map =>
    simp only [loadLayout, bind_ok_iff]
    constructor
    · rintro ⟨_, ⟨size, loadedSize, data, loadedData, same⟩, rows, cols, cells, layout, rowsBound,
        colsBound, counted, full⟩
      cases same
      simp only [LoadedLayout.mk.injEq, Option.map_eq_some_iff] at layout
      obtain ⟨⟨⟨_, _⟩, rfl, rfl⟩, ⟨_, sameSize, rfl⟩, rfl⟩ := layout
      cases sameSize
      obtain ⟨found, rowsItem, colsItem, foundSize, foundRows, foundCols, rfl, rfl⟩ :=
        loadSize_ok_some_iff.mp loadedSize
      obtain ⟨items, _, _, foundData, same, traversed⟩ := loadData_ok_some_iff.mp loadedData
      cases same
      exact ⟨map, found, rowsItem, colsItem, items, rfl, foundSize, foundRows, foundCols, rowsBound, colsBound,
        foundData, (loadRows_ok_iff colsBound).mp ⟨cells, traversed, full⟩⟩
    · rintro ⟨_, found, rowsItem, colsItem, items, same, foundSize, foundRows, foundCols, rowsBound,
        colsBound, foundData, covered⟩
      cases same
      have loadedSize : loadSize (map.getObjectItem (text "size")) =
          .ok (some (rowsItem.valueint, colsItem.valueint)) :=
        loadSize_ok_some_iff.mpr ⟨found, rowsItem, colsItem, foundSize, foundRows, foundCols, rfl, rfl⟩
      obtain ⟨cells, traversed, full⟩ := (loadRows_ok_iff colsBound).mpr covered
      have loadedData := loadData_ok_some_iff.mpr
        ⟨items, rowsItem.valueint, colsItem.valueint, foundData, rfl, traversed⟩
      -- One row is read for each index below `rows`.
      have counted := length_of_mapM_ok traversed
      rw [List.length_range] at counted
      exact ⟨_, ⟨_, loadedSize, _, loadedData, rfl⟩, rowsItem.valueint, colsItem.valueint, cells, rfl,
        rowsBound, colsBound, by omega, full⟩

theorem loadLevelConfig_ok_iff {json : Json} :
    (∃ config, loadLevelConfig json = .ok config ∧ config.FullyAssigned) ↔ Loadable json := by
  simp only [Loadable, ← loadInfo_ok_iff, ← loadObjects_ok_iff, ← loadLayout_ok_iff,
    loadLevelConfig, bind_ok_iff]
  constructor
  · rintro ⟨_, ⟨info, loadedInfo, objects, loadedObjects, layout, loadedLayout, same⟩, full⟩
    cases same
    exact ⟨⟨info, loadedInfo⟩, ⟨objects, loadedObjects, full.objects⟩,
      ⟨layout, loadedLayout, full.layout⟩⟩
  · rintro ⟨⟨info, loadedInfo⟩, ⟨objects, loadedObjects, fullObjects⟩,
      ⟨layout, loadedLayout, fullLayout⟩⟩
    exact ⟨_, ⟨info, loadedInfo, objects, loadedObjects, layout, loadedLayout, rfl⟩,
      ⟨fullObjects, fullLayout⟩⟩

/-- The loader is total on a tree exactly when the tree is loadable. -/
theorem loadsTotally_iff (json : Json) : LoadsTotally json ↔ Loadable json := by
  rw [LoadsTotally, ← loadLevelConfig_ok_iff, loadLevelFile]
  constructor
  · rintro ⟨result, loaded, full⟩
    cases found : loadLevelConfig json with
    | error fault => simp [found, Except.map] at loaded
    | ok config =>
      simp only [found, Except.map, Except.ok.injEq] at loaded
      subst loaded
      exact ⟨config, rfl, full config rfl⟩
  · rintro ⟨config, loaded, full⟩
    refine ⟨some config, by simp [loaded, Except.map], ?_⟩
    intro other member
    cases member
    exact full

theorem assigned_ok_iff {A : Type} {part : Option A} {value : A} : assigned part = .ok value ↔ part = some value := by
  cases part with
  | none => simp [assigned]
  | some found => simp [assigned]

theorem LoadedObject.read_ok_iff {object : LoadedObject} {config : ObjectConfig} :
    object.read = .ok config ↔ object = .ofConfig config := by
  obtain ⟨id, name, texture, entity⟩ := object
  simp only [LoadedObject.read, bind_ok_iff, assigned_ok_iff, LoadedObject.ofConfig, LoadedObject.mk.injEq]
  constructor
  · rintro ⟨id, rfl, name, rfl, texture, rfl, entity, rfl, same⟩
    cases same
    exact ⟨rfl, rfl, rfl, rfl⟩
  · rintro ⟨rfl, rfl, rfl, rfl⟩
    exact ⟨_, rfl, _, rfl, _, rfl, _, rfl, rfl⟩

theorem mapM_read_ok_iff {stored : List LoadedObject} {objects : List ObjectConfig} :
    stored.mapM LoadedObject.read = .ok objects ↔ stored = objects.map LoadedObject.ofConfig := by
  simp only [mapM_ok_iff, LoadedObject.read_ok_iff]
  rw [← List.forall₂_eq_eq_eq, List.forall₂_map_right_iff]

theorem LoadedLayout.readCell_ofConfig {layout : MapLayout} {r c : Nat} {value : Int}
    (found : layout.get? r c = some value) : (LoadedLayout.ofConfig layout).readCell r c = .ok value := by
  obtain ⟨row, foundRow, foundCell⟩ := Option.bind_eq_some_iff.mp found
  refine bind_ok_iff.mpr ⟨_, rfl, assigned_ok_iff.mpr ?_⟩
  simp [foundRow, foundCell]

theorem LoadedLayout.read_ofConfig (layout : MapLayout) : (LoadedLayout.ofConfig layout).read = .ok layout := by
  have cells : (List.range layout.rows).mapM (fun r => (List.range layout.cols).mapM fun c =>
      (LoadedLayout.ofConfig layout).readCell r c) = .ok layout.data := by
    refine mapM_range_ok_iff.mpr ⟨rfl, fun r (row : r < layout.data.length) => ?_⟩
    have width := layout.rectangular _ (List.getElem_mem row)
    refine ⟨layout.data[r], mapM_range_ok_iff.mpr ⟨width, fun c col => ?_⟩, List.getElem?_eq_getElem row⟩
    have column := List.getElem?_eq_getElem (Nat.lt_of_lt_of_eq col width.symm)
    refine ⟨layout.data[r][c], LoadedLayout.readCell_ofConfig ?_, column⟩
    rw [Grid.get?, List.getElem?_eq_getElem row]
    exact column
  exact bind_ok_iff.mpr ⟨_, rfl, bind_ok_iff.mpr ⟨_, rfl, bind_ok_iff.mpr ⟨_, cells, dif_pos layout.rectangular⟩⟩⟩

theorem LoadedConfig.read_ofConfig (config : LevelConfig) : (LoadedConfig.ofConfig config).read = .ok config :=
  bind_ok_iff.mpr ⟨config.objects, mapM_read_ok_iff.mpr rfl,
    bind_ok_iff.mpr ⟨config.layout, LoadedLayout.read_ofConfig config.layout, rfl⟩⟩

theorem assigned_of_isSome {A : Type} {part : Option A} (isSome : part.isSome) : ∃ value, assigned part = .ok value := by
  obtain ⟨value, rfl⟩ := Option.isSome_iff_exists.mp isSome
  exact ⟨value, rfl⟩

theorem LoadedObject.FullyAssigned.read {object : LoadedObject} (full : object.FullyAssigned) :
    ∃ read, object.read = .ok read := by
  obtain ⟨id, hasId⟩ := assigned_of_isSome full.id
  obtain ⟨name, hasName⟩ := assigned_of_isSome full.name
  obtain ⟨texture, hasTexture⟩ := assigned_of_isSome full.texture
  obtain ⟨entity, hasEntity⟩ := assigned_of_isSome full.entity
  exact ⟨_, bind_ok_iff.mpr ⟨id, hasId, bind_ok_iff.mpr ⟨name, hasName, bind_ok_iff.mpr ⟨texture, hasTexture,
    bind_ok_iff.mpr ⟨entity, hasEntity, rfl⟩⟩⟩⟩⟩

theorem LoadedLayout.FullyAssigned.read {layout : LoadedLayout} (full : layout.FullyAssigned) :
    ∃ read, layout.read = .ok read := by
  obtain ⟨rows, cols, data, rfl, _, colsBound, height, width⟩ := full
  have cell (i j : Nat) (row : i < rows.toNat) (column : j < cols.toNat) :
      ∃ value, LoadedLayout.readCell ⟨some rows, some cols, some data⟩ i j = .ok value := by
    have inside : i < data.length := by omega
    obtain ⟨wide, filled⟩ := width data[i] (List.getElem_mem inside)
    have within : j < data[i].length := by omega
    obtain ⟨value, read⟩ := assigned_of_isSome (filled data[i][j] (List.getElem_mem within))
    refine ⟨value, bind_ok_iff.mpr ⟨data, rfl, ?_⟩⟩
    simpa [List.getElem?_eq_getElem inside, List.getElem?_eq_getElem within] using read
  have line : ∀ i ∈ List.range rows.toNat, ∃ line : List Int, (List.range cols.toNat).mapM
      (fun j => LoadedLayout.readCell ⟨some rows, some cols, some data⟩ i j) = .ok line ∧ line.length = cols.toNat := by
    intro i row
    obtain ⟨line, found⟩ := mapM_succeeds_iff.mpr fun j column =>
      cell i j (List.mem_range.mp row) (List.mem_range.mp column)
    exact ⟨line, found, by simpa using length_of_mapM_ok found⟩
  obtain ⟨cells, traversed, rectangular⟩ := (mapM_ok_forall_iff _).mpr line
  exact ⟨_, bind_ok_iff.mpr ⟨rows, rfl, bind_ok_iff.mpr ⟨cols, rfl, bind_ok_iff.mpr ⟨cells, traversed,
    dif_pos rectangular⟩⟩⟩⟩

theorem LoadedConfig.FullyAssigned.read {loaded : LoadedConfig} (full : loaded.FullyAssigned) :
    ∃ config, loaded.read = .ok config := by
  obtain ⟨objects, readObjects⟩ := mapM_succeeds_iff.mpr fun object member => (full.objects object member).read
  obtain ⟨layout, readLayout⟩ := full.layout.read
  exact ⟨_, bind_ok_iff.mpr ⟨objects, readObjects, bind_ok_iff.mpr ⟨layout, readLayout, rfl⟩⟩⟩

/-- A level whose `size` has no `rows`: the item is dereferenced without a check. -/
theorem missing_rows_not_loadsTotally :
    ¬ LoadsTotally (.object [(text "map", .object [(text "size", .object [])])]) := by
  rintro ⟨result, loaded, _⟩
  have faulted : loadLevelFile (some (.object [(text "map", .object [(text "size", .object [])])])) =
      .error .nullPointer := rfl
  rw [faulted] at loaded
  cases loaded

theorem loadRow_written {cols : Nat} {cells : List Int} (width : cells.length = cols) :
    loadRow cols (some (.array (cells.map .number))) = .ok (cells.map some) := by
  subst width
  rw [loadRow, mapM_of_ok (g := fun j => cells[j]?)]
  · exact congrArg _ (List.ext_getElem? fun j => by
      by_cases inside : j < cells.length <;> simp [inside])
  · intro j member
    have inside := List.mem_range.mp member
    simp [derefValueint, inside, Json.valueint, Except.map]

theorem loadLayout_written (layout : MapLayout) :
    loadLayout (some (.object [
      (text "size", .object [(text "rows", .number layout.rows), (text "cols", .number layout.cols)]),
      (text "data", .array (layout.data.map fun row => .array (row.map .number)))])) =
      .ok (LoadedLayout.ofConfig layout) := by
  have size : loadSize (some (.object [(text "rows", .number layout.rows),
      (text "cols", .number layout.cols)])) = .ok (some ((layout.rows : Int), (layout.cols : Int))) := rfl
  have rows : (List.range layout.rows).mapM (fun i => loadRow layout.cols
      (layout.data.map fun row => Json.array (row.map .number))[i]?) =
      .ok (layout.data.map (List.map some)) := by
    rw [mapM_of_ok (g := fun i => ((layout.data.map (List.map some))[i]?).getD [])]
    · refine congrArg _ (List.ext_getElem (by simp [Grid.rows]) fun i left right => ?_)
      rw [List.length_map] at right
      simp [right]
    · intro i member
      have inside : i < layout.data.length := List.mem_range.mp member
      simp only [List.getElem?_map, List.getElem?_eq_getElem inside, Option.map_some, Option.getD_some]
      exact loadRow_written (layout.rectangular _ (List.getElem_mem inside))
  have data : loadData (some ((layout.rows : Int), (layout.cols : Int)))
      (some (.array (layout.data.map fun row => .array (row.map .number)))) =
      .ok (some (layout.data.map (List.map some))) := by
    rw [loadData]
    simp only [Int.toNat_natCast, rows, Except.map]
  exact bind_ok_iff.mpr ⟨_, size, bind_ok_iff.mpr ⟨_, data, rfl⟩⟩

end Trigger.Config
