import Trigger.Editor.Open
import Trigger.Editor.Roles

/-! When a saved level reopens without loss.

Saving numbers the used ids by rank, opening forces the ids 0 and 1 to the empty
object and the player; the file comes back exactly when the ranks 0 and 1 belong
to these objects already.
-/

set_option autoImplicit false

namespace Trigger.Editor
open Foundation Config

/-- Saving, opening the file and saving again writes the same file. -/
def ReopensLossless (listing : Option (List Bytes)) (config : LevelConfig) : Prop :=
  ∃ file saved opened, saveLevelConfig config = .ok file ∧
    loadLevelFile (some file) = .ok (some (LoadedConfig.ofConfig saved)) ∧
    openLevel listing saved = .ok opened ∧ saveLevelConfig opened = .ok file

/-- The box holds an empty cell, and unless the map is empty also a player. -/
structure HoldsForcedIds (layout : MapLayout) : Prop where
  empty : BoxHolds layout 0
  player : (∃ r c, Filled layout r c) → BoxHolds layout 1

structure BuiltPalette (objects : List ObjectConfig) : Prop where
  numbered : Numbered objects
  empty : objects[0]? = some emptyObject
  player : objects[1]? = some playerObject
  textures : ∀ object ∈ objects, object.id ≠ 0 → text "../resources/" <+: object.texture.val
  entities : ∀ object ∈ objects, object.id ≠ 1 → object.entity.val ≠ text "player"

theorem resourcePath_inside (fname : Bytes) : text "../resources/" <+: resourcePath fname :=
  List.IsPrefix.trans (by decide : text "../resources/" <+: mapDir) (List.prefix_append ..)

theorem BuiltPalette.appendPng {objects : List ObjectConfig} (built : BuiltPalette objects)
    (fname : Bytes) : BuiltPalette (appendPng objects fname) := by
  obtain ⟨inside, -⟩ := List.getElem?_eq_some_iff.mp built.player
  refine ⟨fun k object found => ?_, ?_, ?_, fun object member plain => ?_, fun object member other => ?_⟩
  · rw [Editor.appendPng, List.getElem?_append] at found
    split at found
    · exact built.numbered k object found
    · obtain ⟨bound, rfl⟩ := List.getElem?_eq_some_iff.mp found
      rw [List.length_singleton] at bound
      simp only [List.getElem_singleton]
      omega
  · rw [Editor.appendPng, List.getElem?_append_left (by omega), built.empty]
  · rw [Editor.appendPng, List.getElem?_append_left inside, built.player]
  · rcases List.mem_append.mp member with old | new
    · exact built.textures object old plain
    · cases List.mem_singleton.mp new
      exact List.prefix_take_iff.mpr ⟨resourcePath_inside fname, by decide⟩
  · rcases List.mem_append.mp member with old | new
    · exact built.entities object old other
    · cases List.mem_singleton.mp new
      simp [emptyString, CharArray.empty, show text "player" ≠ [] by decide]

theorem builtPalette (listing : Option (List Bytes)) : BuiltPalette (buildObjectPalette listing) := by
  have appended (files : List Bytes) (objects : List ObjectConfig) (built : BuiltPalette objects) :
      BuiltPalette (files.foldl Editor.appendPng objects) := by
    induction files generalizing objects with
    | nil => exact built
    | cons fname rest ih => exact ih _ (built.appendPng fname)
  refine appended _ _ ⟨fun k object found => ?_, rfl, rfl, by decide, by decide⟩
  obtain ⟨inside, rfl⟩ := List.getElem?_eq_some_iff.mp found
  revert k
  decide

theorem length_buildObjectPalette (listing : Option (List Bytes)) :
    (buildObjectPalette listing).length = 4 + (pngNames listing).length := by
  rw [buildObjectPalette_eq, List.length_append, List.length_map, List.length_zipIdx]
  rfl

theorem stripParent_of_inside {texture : CharArray 256} {rest : Bytes}
    (same : text "../resources/" ++ rest = texture.val) :
    (stripParent texture).val = text "resources/" ++ rest := by
  have parent : texture.val = text "../" ++ (text "resources/" ++ rest) := by
    rw [← same, ← List.append_assoc]
    rfl
  rcases stripParent_eq_iff.mp (rfl : stripParent texture = _) with removed | ⟨absent, _⟩
  · exact List.append_cancel_left (removed.symm.trans parent)
  · exact absurd (parent ▸ List.prefix_append ..) absent

theorem stripParent_ne_nil {texture : CharArray 256} (inside : text "../resources/" <+: texture.val) :
    (stripParent texture).val ≠ [] := by
  obtain ⟨rest, same⟩ := inside
  rw [stripParent_of_inside same]
  exact List.append_ne_nil_of_left_ne_nil (by decide) rest

/-- Removing the leading "../" is undone when the level is opened. -/
theorem correctTexture_stripParent {texture : CharArray 256}
    (inside : text "../resources/" <+: texture.val) : correctTexture (stripParent texture) = .ok texture := by
  obtain ⟨rest, same⟩ := inside
  have restored : text "../" ++ (text "resources/" ++ rest) = texture.val := by
    rw [← same, ← List.append_assoc]
    rfl
  have fits := texture.property
  rw [correctTexture, stripParent_of_inside same, if_pos (List.prefix_append ..), restored,
    truncated_of_fits (by omega), strcpy_of_fits fits]

theorem copyLoaded_zero {src : ObjectConfig} (zero : src.id = 0) : copyLoaded src = .ok emptyObject :=
  if_pos zero

theorem copyLoaded_one {src : ObjectConfig} (one : src.id = 1) : copyLoaded src = .ok playerObject := by
  rw [copyLoaded, if_neg (by omega), if_pos one]

theorem objectById_opened {oldObjects loaded : List ObjectConfig} (numbered : Numbered oldObjects)
    (traversed : oldObjects.mapM copyLoaded = .ok loaded) (added : List ObjectConfig) {k : Nat}
    {src object : ObjectConfig} (found : oldObjects[k]? = some src)
    (copied : copyLoaded src = .ok object) :
    objectById (loaded ++ added) k = some object := by
  have loadedNumbered : Numbered loaded := by
    intro i target stored
    obtain ⟨origin, listed, copy⟩ := exists_of_getElem?_mapM traversed stored
    exact (copyLoaded_spec copy).1.trans (numbered i origin listed)
  obtain ⟨other, copy, there⟩ := mapM_getElem? traversed found
  cases copied.symm.trans copy
  have first := loadedNumbered.objectById there
  rw [objectById] at first ⊢
  rw [List.find?_append, first]
  rfl

def rangeIds (count : Nat) : List Int := (List.range count).map fun (k : Nat) => (k : Int)

theorem mem_rangeIds {count : Nat} {id : Int} : id ∈ rangeIds count ↔ 0 ≤ id ∧ id < count := by
  simp only [rangeIds, List.mem_map, List.mem_range]
  constructor
  · rintro ⟨k, inside, rfl⟩
    omega
  · rintro ⟨nonneg, inside⟩
    exact ⟨id.toNat, by omega, Int.toNat_of_nonneg nonneg⟩

theorem rangeIds_increasing (count : Nat) : (rangeIds count).Pairwise (· < ·) :=
  List.Pairwise.map _ (fun _ _ less => Int.ofNat_lt.mpr less) List.pairwise_lt_range

theorem idxOf_rangeIds {count k : Nat} (inside : k < count) : (rangeIds count).idxOf (k : Int) = k := by
  have nodup : (rangeIds count).Nodup := (rangeIds_increasing count).imp fun less => less.ne
  have position := nodup.idxOf_getElem k (by simpa [rangeIds] using inside)
  simpa [rangeIds] using position

theorem length_usedIn_le (layout : MapLayout) : (usedIn layout).length ≤ 256 := by
  refine (List.length_filter_le _ _).trans ?_
  simp [maxObjects]

/-- The map of a saved level: its ids are the positions of its objects. -/
structure Ranked (layout : MapLayout) (count : Nat) : Prop where
  small : layout.rows ≤ editorMaxSize ∧ layout.cols ≤ editorMaxSize
  bound : count ≤ 256
  cells : ∀ r c id, layout.get? r c = some id → 0 ≤ id ∧ id < count

def openedLayout (layout : MapLayout) (countObjects : Nat) : MapLayout :=
  resetForeign (expandMapToEditorSize layout editorMaxSize editorMaxSize) countObjects

theorem Ranked.cellAt_cases {layout : MapLayout} {count : Nat} (ranked : Ranked layout count) (r c : Nat) :
    cellAt layout r c = 0 ∨ 0 ≤ cellAt layout r c ∧ cellAt layout r c < count := by
  by_cases inside : r < layout.rows ∧ c < layout.cols
  · obtain ⟨id, found⟩ := (layout.exists_get?_iff r c).mpr inside
    rw [cellAt_of_get? found]
    exact .inr (ranked.cells r c id found)
  · exact .inl (cellAt_of_outside inside)

theorem openedLayout_shape (layout : MapLayout) (countObjects : Nat) :
    (openedLayout layout countObjects).rows = editorMaxSize ∧
      (openedLayout layout countObjects).cols = editorMaxSize := by
  rw [openedLayout, resetForeign, Grid.rows_map, Grid.cols_map]
  exact expandMapToEditorSize_shape ..

theorem openedLayout_cell {layout : MapLayout} {countObjects r c : Nat} (row : r < editorMaxSize)
    (col : c < editorMaxSize) : (openedLayout layout countObjects).get? r c =
      some (if cellAt layout r c ≥ countObjects then 0 else cellAt layout r c) := by
  rw [openedLayout, resetForeign, Grid.get?_map, expandMapToEditorSize_get? layout row col]
  rfl

theorem openedLayout_get? {layout : MapLayout} {count countObjects : Nat} (ranked : Ranked layout count)
    (objects : count ≤ countObjects) {r c : Nat} (row : r < editorMaxSize) (col : c < editorMaxSize) :
    (openedLayout layout countObjects).get? r c = some (cellAt layout r c) := by
  rw [openedLayout_cell row col]
  rcases ranked.cellAt_cases r c with zero | range
  · rw [zero, ite_self]
  · rw [if_neg (by omega)]

theorem openedLayout_savable {layout : MapLayout} {count countObjects : Nat} (ranked : Ranked layout count)
    (objects : count ≤ countObjects) : Savable (openedLayout layout countObjects) := by
  obtain ⟨rows, cols⟩ := openedLayout_shape layout countObjects
  refine ⟨by rw [rows]; decide, by rw [cols]; decide, fun r c value found => ?_⟩
  have inside := Grid.inside_of_get? found
  rw [openedLayout_get? ranked objects (by omega) (by omega)] at found
  cases found
  have bound := ranked.bound
  rcases ranked.cellAt_cases r c with zero | range
  · omega
  · omega

theorem savedLayout_ranked {layout : MapLayout} (savable : Savable layout)
    (rows : layout.rows ≤ editorMaxSize) (cols : layout.cols ≤ editorMaxSize) :
    Ranked (savedLayout layout) (usedIn layout).length := by
  obtain ⟨top, bottom, left, right, _, ordered, below, across, before, _, height, width, _⟩ :=
    croppedLayout_spec savable
  refine ⟨?_, length_usedIn_le layout, fun r c id found => ?_⟩
  · rw [savedLayout, Grid.rows_map, Grid.cols_map, height, width]
    omega
  · obtain ⟨old, _, member, rfl⟩ := savedLayout_cell savable found
    have position := List.idxOf_lt_length_of_mem member
    omega

section
variable {used : List Int} (increasing : used.Pairwise (· < ·)) (nonneg : ∀ id ∈ used, 0 ≤ id)
include increasing nonneg

theorem rank_zero_iff (zero : 0 ∈ used) {k : Nat} {id : Int} (found : used[k]? = some id) :
    k = 0 ↔ id = 0 := by
  have nodup : used.Nodup := increasing.imp fun less => less.ne
  have first : used.idxOf 0 = 0 := by
    rw [idxOf_eq_countP increasing zero]
    exact List.countP_eq_zero.mpr fun id member => by simpa using nonneg id member
  have same : used.idxOf id = used.idxOf 0 ↔ id = 0 := List.idxOf_inj (List.mem_of_getElem? found)
  obtain ⟨inside, rfl⟩ := List.getElem?_eq_some_iff.mp found
  rwa [nodup.idxOf_getElem k inside, first] at same

theorem rank_one_iff (zero : 0 ∈ used) (one : 1 ∈ used) {k : Nat} {id : Int}
    (found : used[k]? = some id) : k = 1 ↔ id = 1 := by
  have nodup : used.Nodup := increasing.imp fun less => less.ne
  have second : used.idxOf 1 = 1 := by
    rw [idxOf_eq_countP increasing one, ← List.count_eq_one_of_mem nodup zero, List.count]
    refine List.countP_congr fun id member => ?_
    have := nonneg id member
    simp only [decide_eq_true_eq, beq_iff_eq]
    omega
  have same : used.idxOf id = used.idxOf 1 ↔ id = 1 := List.idxOf_inj (List.mem_of_getElem? found)
  obtain ⟨inside, rfl⟩ := List.getElem?_eq_some_iff.mp found
  rwa [nodup.idxOf_getElem k inside, second] at same

end

theorem nonneg_of_usedIn {layout : MapLayout} : ∀ id ∈ usedIn layout, 0 ≤ id :=
  fun _ member => (mem_oldIdsSorted_iff.mp member).2.1

theorem usedIn_increasing (layout : MapLayout) : (usedIn layout).Pairwise (· < ·) :=
  oldIdsSorted_increasing _

theorem usedIn_openedLayout_subset {layout : MapLayout} {count countObjects : Nat}
    (ranked : Ranked layout count) (objects : count ≤ countObjects) (positive : 0 < count) :
    usedIn (openedLayout layout countObjects) ⊆ rangeIds count := by
  intro id member
  have openedSavable := openedLayout_savable ranked objects
  obtain ⟨_, _, _, _, r, c, _, _, _, _, _, cell⟩ := (boxHolds_iff openedSavable).mpr member
  have inside := Grid.inside_of_get? cell
  obtain ⟨openedRows, openedCols⟩ := openedLayout_shape layout countObjects
  rw [openedLayout_get? ranked objects (by omega) (by omega)] at cell
  cases cell
  rcases ranked.cellAt_cases r c with zero | range
  · exact mem_rangeIds.mpr (by omega)
  · exact mem_rangeIds.mpr range

section
variable {layout : MapLayout} {countObjects : Nat} (savable : Savable layout)
  (rows : layout.rows ≤ editorMaxSize) (cols : layout.cols ≤ editorMaxSize)
  (zero : 0 ∈ usedIn layout) (objects : (usedIn layout).length ≤ countObjects)
include savable rows cols zero objects

theorem filled_openedLayout_iff {top bottom left right : Nat} (box : SmallestBox layout top bottom left right)
    (i j : Nat) : Filled (openedLayout (savedLayout layout) countObjects) i j ↔
      i ≤ bottom - top ∧ j ≤ right - left ∧ Filled layout (top + i) (left + j) := by
  have ranked := savedLayout_ranked savable rows cols
  obtain ⟨_, _, _, _, box', _, _, _, _, _, height, width, cells⟩ := croppedLayout_spec savable
  obtain ⟨rfl, rfl, rfl, rfl⟩ := box.unique box'
  have savedRows : (savedLayout layout).rows = bottom - top + 1 := by rw [savedLayout, Grid.rows_map, height]
  have savedCols : (savedLayout layout).cols = right - left + 1 := by rw [savedLayout, Grid.cols_map, width]
  obtain ⟨small, narrow⟩ := ranked.small
  by_cases inside : i ≤ bottom - top ∧ j ≤ right - left
  · obtain ⟨id, found⟩ := (Grid.exists_get?_iff (savedLayout layout) i j).mpr (by omega)
    obtain ⟨old, copied, member, rank⟩ := savedLayout_cell savable found
    rw [cells i j (by omega) (by omega)] at copied
    have position := List.getElem?_eq_getElem (List.idxOf_lt_length_of_mem member)
    rw [List.getElem_idxOf] at position
    have zeroRank := rank_zero_iff (usedIn_increasing layout) nonneg_of_usedIn zero position
    rw [Filled, openedLayout_get? ranked objects (by omega) (by omega), cellAt_of_get? found, Filled, copied]
    simp [rank, zeroRank, inside]
  · refine iff_of_false ?_ (by omega)
    rintro ⟨value, found, plain⟩
    apply plain
    have range := Grid.inside_of_get? found
    obtain ⟨openedRows, openedCols⟩ := openedLayout_shape (savedLayout layout) countObjects
    rw [openedLayout_get? ranked objects (by omega) (by omega), cellAt_of_outside (by omega)] at found
    exact (Option.some.inj found).symm

theorem smallestBox_openedLayout {top bottom left right : Nat}
    (box : SmallestBox layout top bottom left right) :
    SmallestBox (openedLayout (savedLayout layout) countObjects) 0 (bottom - top) 0 (right - left) := by
  have filled := filled_openedLayout_iff savable rows cols zero objects box
  -- A marked cell of the old map is marked in the opened one, moved to the origin.
  have moved {r c : Nat} (inside : top ≤ r ∧ r ≤ bottom ∧ left ≤ c ∧ c ≤ right)
      (marked : Filled layout r c) :
      Filled (openedLayout (savedLayout layout) countObjects) (r - top) (c - left) := by
    refine (filled _ _).mpr ⟨by omega, by omega, ?_⟩
    rwa [Nat.add_sub_cancel' (by omega), Nat.add_sub_cancel' (by omega)]
  rcases box with box | ⟨none, rfl, rfl, rfl, rfl⟩
  · obtain ⟨topCol, onTop⟩ := box.onTop
    obtain ⟨bottomCol, onBottom⟩ := box.onBottom
    obtain ⟨leftRow, onLeft⟩ := box.onLeft
    obtain ⟨rightRow, onRight⟩ := box.onRight
    refine .inl ⟨fun r c marked => ?_, ⟨topCol - left, ?_⟩, ⟨_, moved (box.contains _ _ onBottom) onBottom⟩,
      ⟨leftRow - top, ?_⟩, ⟨_, moved (box.contains _ _ onRight) onRight⟩⟩
    · have := (filled r c).mp marked
      omega
    · simpa using moved (box.contains _ _ onTop) onTop
    · simpa using moved (box.contains _ _ onLeft) onLeft
  · exact .inr ⟨fun r c marked => none _ _ ((filled r c).mp marked).2.2, rfl, rfl, rfl, rfl⟩

theorem croppedLayout_openedLayout :
    croppedLayout (openedLayout (savedLayout layout) countObjects) = savedLayout layout := by
  have ranked := savedLayout_ranked savable rows cols
  obtain ⟨top, bottom, left, right, box, _, _, _, _, _, height, width, _⟩ := croppedLayout_spec savable
  have openedBox := smallestBox_openedLayout savable rows cols zero objects box
  obtain ⟨_, _, _, _, box', _, below, _, before, _, height', width', cells⟩ :=
    croppedLayout_spec (openedLayout_savable ranked objects)
  obtain ⟨rfl, rfl, rfl, rfl⟩ := openedBox.unique box'
  have savedRows : (savedLayout layout).rows = bottom - top + 1 := by rw [savedLayout, Grid.rows_map, height]
  have savedCols : (savedLayout layout).cols = right - left + 1 := by rw [savedLayout, Grid.cols_map, width]
  obtain ⟨openedRows, openedCols⟩ := openedLayout_shape (savedLayout layout) countObjects
  refine Grid.ext_get? (by omega) (by omega) fun r c row col => ?_
  obtain ⟨id, found⟩ := (Grid.exists_get?_iff (savedLayout layout) r c).mpr (by omega)
  rw [cells r c (by omega) (by omega), Nat.zero_add, Nat.zero_add,
    openedLayout_get? ranked objects (by omega) (by omega), cellAt_of_get? found, found]

theorem usedIn_openedLayout :
    usedIn (openedLayout (savedLayout layout) countObjects) = rangeIds (usedIn layout).length := by
  have ranked := savedLayout_ranked savable rows cols
  have openedSavable := openedLayout_savable ranked objects
  have cropped := croppedLayout_openedLayout savable rows cols zero objects
  have held : rangeIds (usedIn layout).length ⊆
      usedIn (openedLayout (savedLayout layout) countObjects) := by
    intro id member
    obtain ⟨nonneg, bound⟩ := mem_rangeIds.mp member
    obtain ⟨k, rfl⟩ := Int.eq_ofNat_of_zero_le nonneg
    have inside : k < (usedIn layout).length := by omega
    obtain ⟨i, j, found⟩ := (mem_usedIn_iff savable).mp (List.getElem_mem inside)
    refine (mem_usedIn_iff openedSavable).mpr ⟨i, j, ?_⟩
    have nodup : (usedIn layout).Nodup := oldIdsSorted_nodup _
    rw [cropped, savedLayout, Grid.get?_map, found, Option.map_some, nodup.idxOf_getElem]
  have ranks := usedIn_openedLayout_subset ranked objects (List.length_pos_of_mem zero)
  have nodup : (usedIn (openedLayout (savedLayout layout) countObjects)).Nodup := oldIdsSorted_nodup _
  exact (eq_of_increasing_of_subset (rangeIds_increasing _) (usedIn_increasing _) held
    (List.subperm_of_subset nodup ranks).length_le).symm

/-- Ranking a ranked map again changes nothing. -/
theorem savedLayout_openedLayout :
    savedLayout (openedLayout (savedLayout layout) countObjects) = savedLayout layout := by
  have ranked := savedLayout_ranked savable rows cols
  have cropped := croppedLayout_openedLayout savable rows cols zero objects
  have used := usedIn_openedLayout savable rows cols zero objects
  have unfolded : savedLayout (openedLayout (savedLayout layout) countObjects) =
      (savedLayout layout).map fun id => ((rangeIds (usedIn layout).length).idxOf id : Int) := by
    rw [savedLayout, cropped, used]
  rw [unfolded]
  refine Grid.ext_get? (Grid.rows_map ..) (Grid.cols_map ..) fun r c row col => ?_
  rw [Grid.rows_map] at row
  rw [Grid.cols_map] at col
  obtain ⟨id, found⟩ := (Grid.exists_get?_iff (savedLayout layout) r c).mpr ⟨row, col⟩
  obtain ⟨nonneg, bound⟩ := ranked.cells r c id found
  obtain ⟨k, rfl⟩ := Int.eq_ofNat_of_zero_le nonneg
  rw [Grid.get?_map, found, Option.map_some, idxOf_rangeIds (by omega)]

end

theorem configJson_injective : Function.Injective configJson := by
  intro first second same
  have loaded := loadLevelConfig_configJson first
  rw [same, loadLevelConfig_configJson second] at loaded
  exact (LoadedConfig.ofConfig_injective (Except.ok.inj loaded)).symm

theorem openLevel_extends {listing : Option (List Bytes)} {saved opened : LevelConfig}
    (result : openLevel listing saved = .ok opened) :
    (∀ fname ∈ pngNames listing, (resourcePath fname).length < 256) ∧
      ∃ loaded added, saved.objects.mapM copyLoaded = .ok loaded ∧
        opened = { saved with
          objects := loaded ++ added
          layout := openedLayout saved.layout (loaded ++ added).length } := by
  obtain ⟨palette, merged, result⟩ := bind_ok_iff.mp result
  obtain ⟨short, loaded, added, traversed, rfl⟩ := mergeObjectPalette_extends merged
  cases result
  exact ⟨short, loaded, added, traversed, rfl⟩

theorem openLevel_succeeds {listing : Option (List Bytes)} {saved : LevelConfig}
    {loaded : List ObjectConfig} (short : ∀ fname ∈ pngNames listing, (resourcePath fname).length < 256)
    (traversed : saved.objects.mapM copyLoaded = .ok loaded)
    (room : ∀ object ∈ saved.objects, object.id + (pngNames listing).length ≤ intMax)
    (few : (pngNames listing).length ≤ intMax) : ∃ opened, openLevel listing saved = .ok opened := by
  obtain ⟨-, -, attained⟩ := trackMaxId_spec saved.objects 0
  have count := missingCount_le (withFixed saved.objects loaded) (pngNames listing)
  obtain ⟨merged, files⟩ := mergePngs_succeed
    ⟨withFixed saved.objects loaded, saved.objects.foldl trackMaxId 0⟩ short (.inr <| by
      rcases attained with same | ⟨object, member, -, -, same⟩
      · simp only [same]; omega
      · have := room object member
        simp only [← same]; omega)
  exact ⟨_, bind_ok_iff.mpr ⟨merged.temp, bind_ok_iff.mpr ⟨loaded, traversed,
    bind_ok_iff.mpr ⟨merged, files, rfl⟩⟩, rfl⟩⟩

theorem savedConfig_objects (config : LevelConfig) :
    (savedConfig config).objects = newObjects config.objects (usedIn config.layout) := rfl

theorem savedConfig_layout (config : LevelConfig) :
    (savedConfig config).layout = savedLayout config.layout := rfl

theorem length_savedConfig_objects (config : LevelConfig) :
    (savedConfig config).objects.length = (usedIn config.layout).length := by
  rw [savedConfig_objects, newObjects, List.length_map, List.length_zipIdx]

theorem copyLoaded_savedObject {config : LevelConfig} (built : BuiltPalette config.objects)
    (zero : 0 ∈ usedIn config.layout)
    (one : ∀ id ∈ usedIn config.layout, id ≠ 0 → 1 ∈ usedIn config.layout) {k : Nat} {src : ObjectConfig}
    (member : src ∈ config.objects) (found : (usedIn config.layout)[k]? = some src.id) :
    copyLoaded ⟨k, src.name, stripParent src.texture, src.entity⟩ =
      .ok ⟨k, src.name, src.texture, src.entity⟩ := by
  have listed {i : Nat} {object : ObjectConfig} (stored : config.objects[i]? = some object)
      (same : src.id = i) : src = object := by
    have first := objectById_of_unique built.numbered.distinct member
    rw [same, built.numbered.objectById stored] at first
    exact (Option.some.inj first).symm
  have zeroRank := rank_zero_iff (usedIn_increasing _) nonneg_of_usedIn zero found
  by_cases first : src.id = 0
  · obtain rfl := zeroRank.mpr first
    cases listed built.empty first
    rfl
  have oneRank := rank_one_iff (usedIn_increasing _) nonneg_of_usedIn zero
    (one _ (List.mem_of_getElem? found) first) found
  by_cases second : src.id = 1
  · obtain rfl := oneRank.mpr second
    cases listed built.player second
    rfl
  · have notZero : (k : Int) ≠ 0 := by omega
    have notOne : (k : Int) ≠ 1 := by omega
    simp only [copyLoaded, notZero, notOne, if_false,
      correctTexture_stripParent (built.textures src member first), Except.map]

/-- In a file that reopens without loss the opened palette gives back the object of every rank. -/
theorem opened_of_lossless {listing : Option (List Bytes)} {config : LevelConfig} (savable : Savable config.layout)
    (rows : config.layout.rows ≤ editorMaxSize) (cols : config.layout.cols ≤ editorMaxSize)
    (lossless : ReopensLossless listing config) :
    (∀ fname ∈ pngNames listing, (resourcePath fname).length < 256) ∧
      ∃ loaded added, (savedConfig config).objects.mapM copyLoaded = .ok loaded ∧
        newObjects (loaded ++ added) (rangeIds (usedIn config.layout).length) = (savedConfig config).objects := by
  obtain ⟨file, saved, opened, written, loadedBack, result, rewritten⟩ := lossless
  rw [saveLevelConfig_eq savable] at written
  cases written
  rw [loadLevelFile, loadLevelConfig_configJson] at loadedBack
  have loadedSame : savedConfig config = saved :=
    LoadedConfig.ofConfig_injective (Option.some.inj (Except.ok.inj loadedBack))
  subst loadedSame
  obtain ⟨short, loaded, added, traversed, openedSame⟩ := openLevel_extends result
  subst openedSame
  refine ⟨short, loaded, added, traversed, ?_⟩
  have ranked := savedLayout_ranked savable rows cols
  have objects : (usedIn config.layout).length ≤ (loaded ++ added).length := by
    rw [List.length_append, length_of_mapM_ok traversed, length_savedConfig_objects config]
    omega
  have openedSavable := openedLayout_savable ranked objects
  rw [saveLevelConfig_eq openedSavable] at rewritten
  have same := congrArg LevelConfig.objects (configJson_injective (Except.ok.inj rewritten))
  rw [savedConfig_objects] at same
  dsimp only [savedConfig_layout] at same
  -- Both files have as many objects, so the second one uses every rank of the first.
  have positive : 0 < (usedIn config.layout).length := by
    obtain ⟨id, held⟩ := exists_boxHolds savable
    exact List.length_pos_of_mem ((boxHolds_iff savable).mp held)
  have sameLength := congrArg List.length same
  rw [length_savedConfig_objects config, newObjects, List.length_map, List.length_zipIdx] at sameLength
  have used : usedIn (openedLayout (savedLayout config.layout) (loaded ++ added).length) =
      rangeIds (usedIn config.layout).length :=
    eq_of_increasing_of_subset (usedIn_increasing _) (rangeIds_increasing _)
      (usedIn_openedLayout_subset ranked objects positive)
      (by rw [rangeIds, List.length_map, List.length_range]; exact sameLength.ge)
  rw [used] at same
  exact same

section
variable {config : LevelConfig} (built : BuiltPalette config.objects)
  (painted : ∀ r c id, config.layout.get? r c = some id → ∃ object ∈ config.objects, object.id = id)
  (savable : Savable config.layout)
include built painted savable

theorem savedObject_of_rank {k : Nat} {id : Int} (found : (usedIn config.layout)[k]? = some id) :
    ∃ src ∈ config.objects, src.id = id ∧
      (savedConfig config).objects[k]? = some ⟨k, src.name, stripParent src.texture, src.entity⟩ := by
  obtain ⟨_, _, _, _, r, c, _, _, _, _, _, cell⟩ :=
    (boxHolds_iff savable).mpr (List.mem_of_getElem? found)
  obtain ⟨src, member, rfl⟩ := painted r c id cell
  have first := objectById_of_unique built.numbered.distinct member
  refine ⟨src, member, rfl, ?_⟩
  rw [savedConfig, newObjects_getElem?, found, Option.map_some, newObject, first]

theorem forced_ranks_of_lossless {listing : Option (List Bytes)}
    (rows : config.layout.rows ≤ editorMaxSize) (cols : config.layout.cols ≤ editorMaxSize)
    (lossless : ReopensLossless listing config) {k : Nat} {id : Int} (found : (usedIn config.layout)[k]? = some id) :
    (k = 0 → id = 0) ∧ (k = 1 → id = 1) := by
  obtain ⟨-, loaded, added, traversed, same⟩ := opened_of_lossless savable rows cols lossless
  obtain ⟨src, member, rfl, stored⟩ := savedObject_of_rank built painted savable found
  obtain ⟨inside, -⟩ := List.getElem?_eq_some_iff.mp found
  have restored : some (newObject (loaded ++ added) k k) =
      some ⟨k, src.name, stripParent src.texture, src.entity⟩ := by
    rw [← stored, ← same, newObjects_getElem?]
    simp [rangeIds, inside]
  rw [Option.some.injEq] at restored
  have opensAs {object : ObjectConfig}
      (copied : copyLoaded ⟨k, src.name, stripParent src.texture, src.entity⟩ = .ok object) :
      newObject (loaded ++ added) k k = ⟨k, object.name, stripParent object.texture, object.entity⟩ := by
    rw [newObject, objectById_opened (newObjects_numbered _ _) traversed added stored copied]
  constructor
  · -- The merge makes it the empty object, whose texture is empty; no other texture of the palette is.
    rintro rfl
    rw [opensAs (copyLoaded_zero rfl), ObjectConfig.mk.injEq] at restored
    by_contra plain
    exact stripParent_ne_nil (built.textures src member plain) (congrArg Subtype.val restored.2.2.1).symm
  · -- The merge makes it a player; no other entity of the palette is one.
    rintro rfl
    rw [opensAs (copyLoaded_one rfl), ObjectConfig.mk.injEq] at restored
    by_contra plain
    exact built.entities src member plain (congrArg Subtype.val restored.2.2.2).symm

section
variable (zero : 0 ∈ usedIn config.layout) (one : ∀ id ∈ usedIn config.layout, id ≠ 0 → 1 ∈ usedIn config.layout)
include zero one

theorem savedObject_copied {k : Nat} {src : ObjectConfig} (stored : (savedConfig config).objects[k]? = some src) :
    ∃ object, copyLoaded src = .ok object ∧
      (⟨k, object.name, stripParent object.texture, object.entity⟩ : ObjectConfig) = src := by
  obtain ⟨inside, -⟩ := List.getElem?_eq_some_iff.mp stored
  rw [length_savedConfig_objects config] at inside
  have found := List.getElem?_eq_getElem inside
  obtain ⟨origin, member, same, saved⟩ := savedObject_of_rank built painted savable found
  rw [← same] at found
  rw [saved] at stored
  cases stored
  exact ⟨_, copyLoaded_savedObject built zero one member found, rfl⟩

theorem newObjects_opened {loaded : List ObjectConfig}
    (traversed : (savedConfig config).objects.mapM copyLoaded = .ok loaded) (added : List ObjectConfig) :
    newObjects (loaded ++ added) (rangeIds (usedIn config.layout).length) = (savedConfig config).objects := by
  have counted := length_savedConfig_objects config
  refine List.ext_getElem? fun k => ?_
  rw [newObjects_getElem?]
  by_cases inside : k < (usedIn config.layout).length
  · have stored := List.getElem?_eq_getElem (counted.symm ▸ inside)
    obtain ⟨object, copied, same⟩ := savedObject_copied built painted savable zero one stored
    have opens := objectById_opened (newObjects_numbered _ _) traversed added stored copied
    rw [stored, ← same]
    simp [rangeIds, inside, newObject, opens]
  · have outside : (savedConfig config).objects[k]? = none := List.getElem?_eq_none (by omega)
    rw [outside]
    simp [rangeIds, inside]

theorem lossless_of_forced {listing : Option (List Bytes)}
    (rows : config.layout.rows ≤ editorMaxSize) (cols : config.layout.cols ≤ editorMaxSize)
    (few : (pngNames listing).length ≤ 256)
    (short : ∀ fname ∈ pngNames listing, (resourcePath fname).length < 256) :
    ReopensLossless listing config := by
  have ranked := savedLayout_ranked savable rows cols
  have counted := length_savedConfig_objects config
  obtain ⟨loaded, traversed⟩ := mapM_succeeds_iff.mpr fun src member => by
    obtain ⟨k, stored⟩ := List.mem_iff_getElem?.mp member
    obtain ⟨object, copied, -⟩ := savedObject_copied built painted savable zero one stored
    exact ⟨object, copied⟩
  -- The ids of the file are ranks, so the new ones stay small.
  have small : ∀ object ∈ (savedConfig config).objects, object.id + (pngNames listing).length ≤ intMax := by
    intro object member
    obtain ⟨k, stored⟩ := List.mem_iff_getElem?.mp member
    obtain ⟨inside, -⟩ := List.getElem?_eq_some_iff.mp stored
    have numbered := newObjects_numbered _ _ k object stored
    have bound := ranked.bound
    simp only [intMax]
    omega
  obtain ⟨opened, result⟩ := openLevel_succeeds short traversed small (by simp only [intMax]; omega)
  refine ⟨_, _, opened, saveLevelConfig_eq savable, ?_, result, ?_⟩
  · rw [loadLevelFile, loadLevelConfig_configJson, Except.map]
  · obtain ⟨-, loaded', added, traversed', rfl⟩ := openLevel_extends result
    have objects : (usedIn config.layout).length ≤ (loaded' ++ added).length := by
      rw [List.length_append, length_of_mapM_ok traversed', counted]
      omega
    rw [saveLevelConfig_eq (openedLayout_savable ranked objects)]
    refine congrArg Except.ok (congrArg configJson ?_)
    refine LevelConfig.ext rfl rfl rfl ?_ ?_
    · rw [savedConfig_objects]
      dsimp only [savedConfig_layout]
      rw [usedIn_openedLayout savable rows cols zero objects]
      exact newObjects_opened built painted savable zero one traversed' added
    · exact savedLayout_openedLayout savable rows cols zero objects

end

end

theorem exists_boxHolds_of_filled {layout : MapLayout} (savable : Savable layout) {r c : Nat}
    (filled : Filled layout r c) : ∃ id, BoxHolds layout id ∧ id ≠ 0 := by
  obtain ⟨value, found, plain⟩ := filled
  obtain ⟨top, bottom, left, right, box, -⟩ := croppedLayout_spec savable
  rcases id box with inside | ⟨none, -⟩
  · have bounds := inside.contains r c ⟨value, found, plain⟩
    exact ⟨value, ⟨top, bottom, left, right, r, c, box, bounds.1, bounds.2.1, bounds.2.2.1,
      bounds.2.2.2, found⟩, plain⟩
  · exact absurd ⟨value, found, plain⟩ (none r c)

theorem holdsForcedIds_iff {layout : MapLayout} (savable : Savable layout) :
    HoldsForcedIds layout ↔
      0 ∈ usedIn layout ∧ ∀ id ∈ usedIn layout, id ≠ 0 → 1 ∈ usedIn layout := by
  simp only [← boxHolds_iff savable]
  constructor
  · rintro ⟨empty, player⟩
    refine ⟨empty, fun id held plain => player ?_⟩
    obtain ⟨_, _, _, _, r, c, _, _, _, _, _, found⟩ := held
    exact ⟨r, c, id, found, plain⟩
  · rintro ⟨empty, player⟩
    refine ⟨empty, fun ⟨r, c, filled⟩ => ?_⟩
    obtain ⟨id, held, plain⟩ := exists_boxHolds_of_filled savable filled
    exact player id held plain

theorem savable_of_painted {config : LevelConfig} (few : config.objects.length ≤ 256)
    (built : BuiltPalette config.objects) (rows : config.layout.rows = editorMaxSize)
    (cols : config.layout.cols = editorMaxSize)
    (painted : ∀ r c id, config.layout.get? r c = some id → ∃ object ∈ config.objects, object.id = id) :
    Savable config.layout := by
  refine .of_painted (by rw [rows]; decide) (by rw [cols]; decide) (fun object member => ?_) painted
  obtain ⟨k, stored⟩ := List.mem_iff_getElem?.mp member
  obtain ⟨inside, -⟩ := List.getElem?_eq_some_iff.mp stored
  have := built.numbered k object stored
  omega

theorem forced_of_lossless {listing : Option (List Bytes)} {config : LevelConfig}
    (built : BuiltPalette config.objects) (savable : Savable config.layout)
    (rows : config.layout.rows ≤ editorMaxSize) (cols : config.layout.cols ≤ editorMaxSize)
    (painted : ∀ r c id, config.layout.get? r c = some id → ∃ object ∈ config.objects, object.id = id)
    (lossless : ReopensLossless listing config) :
    HoldsForcedIds config.layout ∧ ∀ fname ∈ pngNames listing, (resourcePath fname).length < 256 := by
  obtain ⟨short, -⟩ := opened_of_lossless savable rows cols lossless
  have ranks {k : Nat} {id : Int} (found : (usedIn config.layout)[k]? = some id) :=
    forced_ranks_of_lossless built painted savable rows cols lossless found
  refine ⟨(holdsForcedIds_iff savable).mpr ?_, short⟩
  obtain ⟨other, held⟩ := exists_boxHolds savable
  have positive := List.length_pos_of_mem ((boxHolds_iff savable).mp held)
  have first := List.getElem?_eq_getElem positive
  have zero := (ranks first).1 rfl
  refine ⟨zero ▸ List.getElem_mem positive, fun id member plain => ?_⟩
  obtain ⟨k, found⟩ := List.mem_iff_getElem?.mp member
  obtain ⟨inside, -⟩ := List.getElem?_eq_some_iff.mp found
  have later : k ≠ 0 := fun same => plain ((ranks found).1 same)
  have second := List.getElem?_eq_getElem (by omega : 1 < (usedIn config.layout).length)
  exact (ranks second).2 rfl ▸ List.getElem_mem _

/-- A new map saved and reopened comes back exactly when its box holds an empty
cell, and unless the map is empty a player, and every listed path fits. -/
theorem reopensLossless_iff (listing : Option (List Bytes)) (config : LevelConfig)
    (palette : config.objects = buildObjectPalette listing) (few : config.objects.length ≤ 256)
    (rows : config.layout.rows = editorMaxSize) (cols : config.layout.cols = editorMaxSize)
    (painted : ∀ r c id, config.layout.get? r c = some id → ∃ object ∈ config.objects, object.id = id) :
    ReopensLossless listing config ↔
      HoldsForcedIds config.layout ∧ ∀ fname ∈ pngNames listing, (resourcePath fname).length < 256 := by
  have built : BuiltPalette config.objects := palette ▸ builtPalette listing
  have savable := savable_of_painted few built rows cols painted
  constructor
  · exact forced_of_lossless built savable rows.le cols.le painted
  · rintro ⟨forced, short⟩
    obtain ⟨zero, one⟩ := (holdsForcedIds_iff savable).mp forced
    rw [palette, length_buildObjectPalette] at few
    exact lossless_of_forced built painted savable zero one rows.le cols.le (by omega) short

def doorLevel : LevelConfig where
  name := emptyString
  nextLevel := emptyString
  textureBackground := emptyString
  objects := buildObjectPalette none
  layout := Grid.ofFn editorMaxSize editorMaxSize fun r c => if r = 0 ∧ c = 0 then 2 else 0

theorem doorLevel_get? (r c : Nat) : doorLevel.layout.get? r c =
    if r < editorMaxSize ∧ c < editorMaxSize then some (if r = 0 ∧ c = 0 then 2 else 0) else none :=
  Grid.get?_ofFn ..

theorem doorLevel_painted (r c : Nat) (id : Int) (found : doorLevel.layout.get? r c = some id) :
    ∃ object ∈ doorLevel.objects, object.id = id := by
  have empty : ∃ object ∈ buildObjectPalette none, object.id = 0 := by decide
  have door : ∃ object ∈ buildObjectPalette none, object.id = 2 := by decide
  rw [doorLevel_get?] at found
  split at found
  · cases found
    split
    · exact door
    · exact empty
  · cases found

theorem doorLevel_reopensLossless_iff : ReopensLossless none doorLevel ↔
    HoldsForcedIds doorLevel.layout ∧ ∀ fname ∈ pngNames none, (resourcePath fname).length < 256 :=
  reopensLossless_iff none doorLevel rfl (by decide) (Grid.rows_ofFn ..) (Grid.cols_ofFn ..)
    doorLevel_painted

/-- Saved alone the door gets id 0, and opening turns it into an empty cell. -/
theorem doorLevel_not_lossless : ¬ ReopensLossless none doorLevel := by
  have built : BuiltPalette doorLevel.objects := builtPalette none
  have rows : doorLevel.layout.rows = editorMaxSize := Grid.rows_ofFn ..
  have cols : doorLevel.layout.cols = editorMaxSize := Grid.cols_ofFn ..
  have savable := savable_of_painted (by decide) built rows cols doorLevel_painted
  have box : SmallestBox doorLevel.layout 0 0 0 0 := by
    refine .inl ((Grid.Encloses.single 0 0).congr fun r c => ?_)
    rw [Filled, doorLevel_get?]
    by_cases corner : r = 0 ∧ c = 0
    · simp [corner, editorMaxSize]
    · simp [corner]
  intro lossless
  obtain ⟨⟨empty, -⟩, -⟩ := forced_of_lossless built savable rows.le cols.le doorLevel_painted lossless
  obtain ⟨_, _, _, _, r, c, box', _, _, _, _, found⟩ := empty
  obtain ⟨rfl, rfl, rfl, rfl⟩ := box.unique box'
  rw [doorLevel_get?] at found
  simp [show r = 0 ∧ c = 0 by omega, editorMaxSize] at found

end Trigger.Editor
