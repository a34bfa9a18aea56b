import Trigger.Config.Loader
import Trigger.Editor.Save

/-! What `SaveLevelConfig` writes, pass by pass: the box is the smallest
rectangle around the non-empty cells, the used ids are sorted, an id becomes its
rank, and the printed tree loads back as the configuration it was printed from.
-/

set_option autoImplicit false

namespace Trigger.Editor
open Foundation Config

def Filled (layout : MapLayout) (r c : Nat) : Prop := ∃ value, layout.get? r c = some value ∧ value ≠ 0

/-- The smallest rectangle around the non-empty cells, the cell (0, 0) of an empty map. -/
def SmallestBox (layout : MapLayout) (top bottom left right : Nat) : Prop :=
  Grid.Encloses (Filled layout) top bottom left right ∨
    (∀ r c, ¬ Filled layout r c) ∧ top = 0 ∧ bottom = 0 ∧ left = 0 ∧ right = 0

def Seen (cells : List (Nat × Nat × Int)) (r c : Nat) : Prop := ∃ value, (r, c, value) ∈ cells ∧ value ≠ 0

theorem seen_append_iff {cells : List (Nat × Nat × Int)} {r c i j : Nat} {value : Int} :
    Seen (cells ++ [(r, c, value)]) i j ↔ Seen cells i j ∨ ((i = r ∧ j = c) ∧ value ≠ 0) := by
  simp only [Seen, List.mem_append, List.mem_singleton, Prod.mk.injEq]
  constructor
  · rintro ⟨other, old | ⟨rfl, rfl, rfl⟩, filled⟩
    · exact .inl ⟨other, old, filled⟩
    · exact .inr ⟨⟨rfl, rfl⟩, filled⟩
  · rintro (⟨other, old, filled⟩ | ⟨⟨rfl, rfl⟩, filled⟩)
    · exact ⟨other, .inl old, filled⟩
    · exact ⟨value, .inr ⟨rfl, rfl, rfl⟩, filled⟩

/-- The running extent after the cells of a prefix of the scan. -/
def Extent.Tracks (rows cols : Nat) (cells : List (Nat × Nat × Int)) (extent : Extent) : Prop :=
  (extent = ⟨rows, -1, cols, -1, false⟩ ∧ ∀ r c, ¬ Seen cells r c) ∨
    ∃ top bottom left right : Nat, extent = ⟨top, bottom, left, right, true⟩ ∧
      Grid.Encloses (Seen cells) top bottom left right

theorem Extent.Tracks.visit {rows cols : Nat} {cells : List (Nat × Nat × Int)} {extent : Extent}
    (tracks : extent.Tracks rows cols cells) {r c : Nat} {value : Int} (row : r < rows) (col : c < cols) :
    (extent.visit (r, c, value)).Tracks rows cols (cells ++ [(r, c, value)]) := by
  by_cases empty : value = 0
  · have same (i j : Nat) : Seen cells i j ↔ Seen (cells ++ [(r, c, value)]) i j := by
      simp [seen_append_iff, empty]
    rw [Extent.visit, if_neg (not_not.mpr empty)]
    rcases tracks with ⟨start, none⟩ | ⟨top, bottom, left, right, shape, box⟩
    · exact .inl ⟨start, fun i j seen => none i j ((same i j).mpr seen)⟩
    · exact .inr ⟨top, bottom, left, right, shape, box.congr same⟩
  · rw [Extent.visit, if_pos empty]
    refine .inr ?_
    rcases tracks with ⟨rfl, none⟩ | ⟨top, bottom, left, right, rfl, box⟩
    · refine ⟨r, r, c, c, ?_, (Grid.Encloses.single r c).congr fun i j => ?_⟩
      · simp only [Extent.mk.injEq, and_true]
        refine ⟨?_, ?_, ?_, ?_⟩ <;> split <;> omega
      · simp [seen_append_iff, none i j, empty]
    · refine ⟨min top r, max bottom r, min left c, max right c, ?_,
        (box.insert r c).congr fun i j => ?_⟩
      · simp only [Extent.mk.injEq, and_true]
        refine ⟨?_, ?_, ?_, ?_⟩ <;> split <;> omega
      · simp [seen_append_iff, empty]

theorem Extent.Tracks.foldl {rows cols : Nat} {cells rest : List (Nat × Nat × Int)} {extent : Extent}
    (tracks : extent.Tracks rows cols cells)
    (inside : ∀ r c value, (r, c, value) ∈ rest → r < rows ∧ c < cols) :
    (rest.foldl Extent.visit extent).Tracks rows cols (cells ++ rest) := by
  induction rest generalizing cells extent with
  | nil => simpa using tracks
  | cons cell rest ih =>
    obtain ⟨r, c, value⟩ := cell
    have bounds := inside r c value (by simp)
    have visited : (extent.visit (r, c, value)).Tracks rows cols (cells ++ [(r, c, value)]) :=
      tracks.visit bounds.1 bounds.2
    have next := ih visited
      fun r c value member => inside r c value (List.mem_cons_of_mem _ member)
    simpa using next

theorem seen_cells_iff {layout : MapLayout} {r c : Nat} : Seen layout.cells r c ↔ Filled layout r c := by
  simp [Seen, Filled, Grid.mem_cells]

theorem boundingBox_spec (layout : MapLayout) :
    ∃ top bottom left right : Nat, SmallestBox layout top bottom left right ∧
      (boundingBox layout).minR = top ∧ (boundingBox layout).maxR = bottom ∧
      (boundingBox layout).minC = left ∧ (boundingBox layout).maxC = right := by
  -- Nothing is scanned yet: the minima stand behind the map, the maxima before it.
  have start : Extent.Tracks layout.rows layout.cols [] ⟨layout.rows, -1, layout.cols, -1, false⟩ :=
    .inl ⟨rfl, by simp [Seen]⟩
  have inside : ∀ r c value, (r, c, value) ∈ layout.cells → r < layout.rows ∧ c < layout.cols :=
    fun r c value member => Grid.inside_of_get? (Grid.mem_cells.mp member)
  have tracks := start.foldl inside
  rw [List.nil_append] at tracks
  rcases tracks with ⟨shape, none⟩ | ⟨top, bottom, left, right, shape, box⟩
  · refine ⟨0, 0, 0, 0, .inr ⟨fun r c filled => none r c (seen_cells_iff.mpr filled), by simp⟩, ?_⟩
    simp [boundingBox, shape]
  · refine ⟨top, bottom, left, right, .inl (box.congr fun r c => seen_cells_iff), ?_⟩
    simp [boundingBox, shape]

theorem SmallestBox.inside {layout : MapLayout} {top bottom left right : Nat}
    (box : SmallestBox layout top bottom left right) (rows : 1 ≤ layout.rows) (cols : 1 ≤ layout.cols) :
    top ≤ bottom ∧ bottom < layout.rows ∧ left ≤ right ∧ right < layout.cols := by
  rcases box with box | ⟨_, rfl, rfl, rfl, rfl⟩
  · obtain ⟨c, onTop⟩ := box.onTop
    obtain ⟨_, _, onBottom, _⟩ := box.onBottom
    obtain ⟨_, _, onRight, _⟩ := box.onRight
    have bottomInside := Grid.inside_of_get? onBottom
    have rightInside := Grid.inside_of_get? onRight
    have topContained := box.contains _ _ onTop
    omega
  · omega

theorem SmallestBox.unique {layout : MapLayout} {top bottom left right top' bottom' left' right' : Nat}
    (box : SmallestBox layout top bottom left right)
    (other : SmallestBox layout top' bottom' left' right') :
    top = top' ∧ bottom = bottom' ∧ left = left' ∧ right = right' := by
  rcases box with box | ⟨none, rfl, rfl, rfl, rfl⟩ <;>
    rcases other with other | ⟨none', rfl, rfl, rfl, rfl⟩
  · exact box.unique other
  · obtain ⟨c, onTop⟩ := box.onTop
    exact absurd onTop (none' _ _)
  · obtain ⟨c, onTop⟩ := other.onTop
    exact absurd onTop (none _ _)
  · simp

theorem usedIds_iff {newData : List (List Int)} {id : Int} :
    usedIds newData id = true ↔ id ∈ newData.flatten ∧ 0 ≤ id ∧ id < maxObjects := by
  -- Stated for any table the loop may start from.
  have filled (ids : List Int) (used : Int → Bool) :
      ids.foldl (fun (used : Int → Bool) (id : Int) =>
        if 0 ≤ id ∧ id < maxObjects then Function.update used id true else used) used id = true ↔
      used id = true ∨ id ∈ ids ∧ 0 ≤ id ∧ id < maxObjects := by
    induction ids generalizing used with
    | nil => simp
    | cons head rest ih =>
      rw [List.foldl_cons, ih, List.mem_cons]
      by_cases same : id = head
      · subst same
        by_cases range : 0 ≤ id ∧ id < maxObjects <;> simp [range]
      · by_cases range : 0 ≤ head ∧ head < maxObjects <;> simp [range, same]
  rw [usedIds, filled]
  simp

theorem mem_oldIdsSorted_iff {newData : List (List Int)} {id : Int} :
    id ∈ oldIdsSorted newData ↔ id ∈ newData.flatten ∧ 0 ≤ id ∧ id < maxObjects := by
  rw [oldIdsSorted, List.mem_filter, usedIds_iff, List.mem_map]
  constructor
  · exact fun found => found.2
  · intro found
    refine ⟨⟨id.toNat, ?_, ?_⟩, found⟩
    · have := found.2
      rw [List.mem_range]
      omega
    · exact Int.toNat_of_nonneg found.2.1

theorem oldIdsSorted_increasing (newData : List (List Int)) :
    (oldIdsSorted newData).Pairwise (· < ·) := by
  refine List.Pairwise.filter _ (List.Pairwise.map _ (fun a b less => ?_) List.pairwise_lt_range)
  exact Int.ofNat_lt.mpr less

theorem oldIdsSorted_nodup (newData : List (List Int)) : (oldIdsSorted newData).Nodup :=
  (oldIdsSorted_increasing newData).imp fun less => Int.ne_of_lt less

theorem idMap_of_mem {oldIds : List Int} (nodup : oldIds.Nodup) {id : Int} (member : id ∈ oldIds) :
    idMap oldIds id = oldIds.idxOf id := by
  -- No id occurs twice, so what is written for an id is not written over.
  have placed (ids : List Int) (start : Nat) (map : Int → Int) (nodup : ids.Nodup) :
      (ids.zipIdx start).foldl (fun map entry => Function.update map entry.1 (entry.2 : Int)) map id =
        if id ∈ ids then ((start + ids.idxOf id : Nat) : Int) else map id := by
    induction ids generalizing start map with
    | nil => simp
    | cons head rest ih =>
      obtain ⟨fresh, restNodup⟩ := List.nodup_cons.mp nodup
      rw [List.zipIdx_cons, List.foldl_cons, ih (start + 1) _ restNodup]
      by_cases same : id = head
      · subst same
        simp [fresh]
      · rw [List.idxOf_cons_ne _ (Ne.symm same)]
        by_cases present : id ∈ rest
        · simp only [present, if_true, List.mem_cons, or_true]
          omega
        · simp [present, same]
  rw [idMap, placed oldIds 0 _ nodup, if_pos member, Nat.zero_add]

/-- Cell of the map, zero outside (never read there). -/
def cellAt (layout : MapLayout) (r c : Nat) : Int := (layout.get? r c).getD 0

def croppedLayout (layout : MapLayout) : MapLayout :=
  let box := boundingBox layout
  Grid.ofFn box.newRows.toNat box.newCols.toNat fun i j =>
    cellAt layout (box.minR.toNat + i) (box.minC.toNat + j)

def usedIn (layout : MapLayout) : List Int := oldIdsSorted (croppedLayout layout).data

def savedLayout (layout : MapLayout) : MapLayout :=
  (croppedLayout layout).map fun id => ((usedIn layout).idxOf id : Int)

def savedConfig (config : LevelConfig) : LevelConfig :=
  { config with
    objects := newObjects config.objects (usedIn config.layout)
    layout := savedLayout config.layout }

def configJson (config : LevelConfig) : Json :=
  levelJson config config.objects config.layout.rows config.layout.cols config.layout.data

/-- A map the editor can save: not empty, all cells valid table indices. -/
structure Savable (layout : MapLayout) : Prop where
  rows : 1 ≤ layout.rows
  cols : 1 ≤ layout.cols
  cells : ∀ r c value, layout.get? r c = some value → 0 ≤ value ∧ value ≤ 255

theorem Savable.of_painted {objects : List ObjectConfig} {layout : MapLayout} (rows : 1 ≤ layout.rows)
    (cols : 1 ≤ layout.cols) (range : ∀ object ∈ objects, 0 ≤ object.id ∧ object.id ≤ 255)
    (painted : ∀ r c id, layout.get? r c = some id → ∃ object ∈ objects, object.id = id) : Savable layout := by
  refine ⟨rows, cols, fun r c id found => ?_⟩
  obtain ⟨object, listed, rfl⟩ := painted r c id found
  exact range object listed

theorem croppedLayout_spec {layout : MapLayout} (savable : Savable layout) :
    ∃ top bottom left right : Nat, SmallestBox layout top bottom left right ∧
      top ≤ bottom ∧ bottom < layout.rows ∧ left ≤ right ∧ right < layout.cols ∧
      boundingBox layout = ⟨top, bottom, left, right, (boundingBox layout).found⟩ ∧
      (croppedLayout layout).rows = bottom - top + 1 ∧
      (croppedLayout layout).cols = right - left + 1 ∧
      ∀ i j, i < bottom - top + 1 → j < right - left + 1 →
        (croppedLayout layout).get? i j = layout.get? (top + i) (left + j) := by
  obtain ⟨top, bottom, left, right, box, minR, maxR, minC, maxC⟩ := boundingBox_spec layout
  obtain ⟨ordered, bottomInside, across, rightInside⟩ := box.inside savable.rows savable.cols
  have height : (boundingBox layout).newRows.toNat = bottom - top + 1 := by
    rw [Extent.newRows, minR, maxR]; omega
  have width : (boundingBox layout).newCols.toNat = right - left + 1 := by
    rw [Extent.newCols, minC, maxC]; omega
  refine ⟨top, bottom, left, right, box, ordered, bottomInside, across, rightInside, ?_, ?_, ?_, ?_⟩
  · rw [← minR, ← maxR, ← minC, ← maxC]
  · rw [croppedLayout, Grid.rows_ofFn, height]
  · rw [croppedLayout, Grid.cols_ofFn, width]
  · intro i j row col
    obtain ⟨value, found⟩ := (layout.exists_get?_iff (top + i) (left + j)).mpr (by omega)
    rw [croppedLayout, Grid.get?_ofFn, height, width, if_pos ⟨row, col⟩, minR, minC]
    simp [cellAt, found]

theorem mem_usedIn_iff {layout : MapLayout} (savable : Savable layout) {id : Int} :
    id ∈ usedIn layout ↔ ∃ i j, (croppedLayout layout).get? i j = some id := by
  rw [usedIn, mem_oldIdsSorted_iff, Grid.mem_flatten_iff, and_iff_left_of_imp]
  rintro ⟨i, j, found⟩
  obtain ⟨top, bottom, left, right, _, _, _, _, _, _, height, width, cells⟩ :=
    croppedLayout_spec savable
  have inside := Grid.inside_of_get? found
  rw [cells i j (by omega) (by omega)] at found
  have range := savable.cells _ _ _ found
  simp only [maxObjects]
  omega

theorem copyBox_eq {layout : MapLayout} (savable : Savable layout) :
    copyBox layout (boundingBox layout) = .ok (croppedLayout layout).data := by
  obtain ⟨top, bottom, left, right, _, ordered, bottomInside, across, rightInside, shape, _⟩ :=
    croppedLayout_spec savable
  rw [copyBox, croppedLayout, Grid.ofFn]
  refine mapM_of_ok fun i row => mapM_of_ok fun j col => ?_
  rw [List.mem_range, Extent.newRows, shape] at row
  rw [List.mem_range, Extent.newCols, shape] at col
  obtain ⟨value, found⟩ := (layout.exists_get?_iff (top + i) (left + j)).mpr
    ⟨by simp only at row; omega, by simp only at col; omega⟩
  have read : layout.at? (top + i) (left + j) = some value := by
    have signed := layout.at?_natCast (top + i) (left + j)
    push_cast at signed
    rw [signed, found]
  rw [shape]
  simp [readCell, read, cellAt, found]

theorem renumber_eq {layout : MapLayout} {id : Int} (member : id ∈ usedIn layout) :
    renumber (usedIn layout) id = .ok ((usedIn layout).idxOf id) := by
  have range := (mem_oldIdsSorted_iff.mp member).2
  have nodup : (usedIn layout).Nodup := oldIdsSorted_nodup _
  rw [renumber, if_pos range, idMap_of_mem nodup member]

theorem renumbered_eq {layout : MapLayout} (savable : Savable layout) :
    (croppedLayout layout).data.mapM (fun row => row.mapM (renumber (usedIn layout))) =
      .ok (savedLayout layout).data := by
  refine mapM_of_ok fun row member => mapM_of_ok fun id present => ?_
  exact renumber_eq ((mem_usedIn_iff savable).mpr (Grid.mem_flatten_iff.mp (List.mem_flatten.mpr ⟨row, member, present⟩)))

theorem boundingBox_shape {layout : MapLayout} (savable : Savable layout) :
    (boundingBox layout).newRows = (savedLayout layout).rows ∧
      (boundingBox layout).newCols = (savedLayout layout).cols := by
  obtain ⟨top, bottom, left, right, _, ordered, _, across, _, shape, height, width, _⟩ :=
    croppedLayout_spec savable
  rw [savedLayout, Grid.rows_map, Grid.cols_map, height, width, shape]
  simp only [Extent.newRows, Extent.newCols]
  omega

theorem saveLevelConfig_eq {config : LevelConfig} (savable : Savable config.layout) :
    saveLevelConfig config = .ok (configJson (savedConfig config)) := by
  have shape := boundingBox_shape savable
  refine bind_ok_iff.mpr ⟨_, copyBox_eq savable, bind_ok_iff.mpr ⟨_, renumbered_eq savable, ?_⟩⟩
  rw [shape.1, shape.2]
  rfl

theorem loadObject_objectJson (object : ObjectConfig) :
    loadObject (objectJson object) = .ok (LoadedObject.ofConfig object) := by
  have name : (objectJson object).getObjectItem (text "name") = some (.string object.name.val) := rfl
  have texture : (objectJson object).getObjectItem (text "texture") =
    some (.string object.texture.val) := rfl
  have entity : (objectJson object).getObjectItem (text "entity") =
    some (.string object.entity.val) := rfl
  have id : (objectJson object).getObjectItem (text "id") = some (.number object.id) := rfl
  simp [loadObject, name, texture, entity, id, copyValuestring, Json.valuestring, Json.valueint,
    object.name.property, object.texture.property, object.entity.property,
    LoadedObject.ofConfig, Except.map, Bind.bind, Except.bind, pure, Except.pure]

/-- The loader reads back exactly the configuration a tree was printed from. -/
theorem loadLevelConfig_configJson (config : LevelConfig) :
    loadLevelConfig (configJson config) = .ok (LoadedConfig.ofConfig config) := by
  have info : loadInfo ((configJson config).getObjectItem (text "level_info")) =
      .ok ⟨config.name, config.nextLevel, config.textureBackground⟩ := by
    have name : copyValuestring (some (.string config.name.val)) = .ok (some config.name) := by
      simp [copyValuestring, Json.valuestring, config.name.property, Except.map]
    have background : copyValuestring (some (.string config.textureBackground.val)) =
        .ok (some config.textureBackground) := by
      simp [copyValuestring, Json.valuestring, config.textureBackground.property, Except.map]
    have nextLevel : copyValuestring (some (.string config.nextLevel.val)) =
        .ok (some config.nextLevel) := by
      simp [copyValuestring, Json.valuestring, config.nextLevel.property, Except.map]
    exact bind_ok_iff.mpr ⟨_, name, bind_ok_iff.mpr ⟨_, background,
      bind_ok_iff.mpr ⟨_, nextLevel, rfl⟩⟩⟩
  have objects : loadObjects ((configJson config).getObjectItem (text "objects")) =
      .ok (config.objects.map LoadedObject.ofConfig) := by
    change (config.objects.map objectJson).mapM loadObject = _
    rw [List.mapM_map]
    exact mapM_of_ok fun object _ => loadObject_objectJson object
  exact bind_ok_iff.mpr ⟨_, info, bind_ok_iff.mpr ⟨_, objects,
    bind_ok_iff.mpr ⟨_, loadLayout_written config.layout, rfl⟩⟩⟩

end Trigger.Editor
