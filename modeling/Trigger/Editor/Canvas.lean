import Trigger.Editor.Open

/-! The file of a map does not depend on the canvas it was drawn on: neither on where its
non-empty cells stand nor on the empty rows and columns around them.
-/

set_option autoImplicit false

namespace Trigger.Editor
open Foundation Config

/-- Every non-empty cell of the first map is in the second one, moved by the offset. -/
def MovesInto (first second : MapLayout) (dr dc : Int) : Prop :=
  ∀ cell ∈ first.cells, cell.2.2 ≠ 0 → second.at? (cell.1 + dr) (cell.2.1 + dc) = some cell.2.2

instance (first second : MapLayout) (dr dc : Int) : Decidable (MovesInto first second dr dc) :=
  inferInstanceAs (Decidable (∀ cell ∈ first.cells, _ → _))

/-- The non-empty cells are translates of each other, with equal values. -/
structure Translated (first second : MapLayout) (dr dc : Int) : Prop where
  moved : MovesInto first second dr dc
  back : MovesInto second first (-dr) (-dc)

section
variable {first second : MapLayout} {dr dc : Int}

theorem MovesInto.at? (moved : MovesInto first second dr dc) {i j value : Int} (found : first.at? i j = some value)
    (filled : value ≠ 0) : second.at? (i + dr) (j + dc) = some value :=
  (Grid.forall_mem_cells_iff fun i j value => value ≠ 0 → second.at? (i + dr) (j + dc) = some value).mp
    moved i j value found filled

theorem MovesInto.filled (moved : MovesInto first second dr dc) {r c : Nat} (filled : Filled first r c) :
    ∃ i j : Nat, Filled second i j ∧ (i : Int) = r + dr ∧ (j : Int) = c + dc := by
  obtain ⟨value, found, nonzero⟩ := filled
  have there := moved.at? ((Grid.at?_natCast ..).trans found) nonzero
  obtain ⟨row, column, cell⟩ := Grid.at?_eq_some_iff.mp there
  exact ⟨_, _, ⟨value, cell, nonzero⟩, Int.toNat_of_nonneg row, Int.toNat_of_nonneg column⟩

theorem Translated.filled_back (translated : Translated first second dr dc) {i j : Nat} (filled : Filled second i j) :
    ∃ r c : Nat, Filled first r c ∧ (i : Int) = r + dr ∧ (j : Int) = c + dc := by
  obtain ⟨r, c, here, row, column⟩ := translated.back.filled filled
  exact ⟨r, c, here, by omega, by omega⟩

theorem Translated.box (translated : Translated first second dr dc) {top bottom left right : Nat}
    (box : SmallestBox first top bottom left right) {top' bottom' left' right' : Nat}
    (box' : SmallestBox second top' bottom' left' right') :
    (top' : Int) = top + dr ∧ (bottom' : Int) = bottom + dr ∧ (left' : Int) = left + dc ∧ (right' : Int) = right + dc ∨
      (∀ r c, ¬ Filled first r c) ∧ (∀ r c, ¬ Filled second r c) ∧
        (top = 0 ∧ bottom = 0 ∧ left = 0 ∧ right = 0) ∧ top' = 0 ∧ bottom' = 0 ∧ left' = 0 ∧ right' = 0 := by
  rcases box with box | ⟨none, origin⟩ <;> rcases box' with box' | ⟨none', origin'⟩
  · exact .inl (box.translate box' (fun _ _ filled => translated.moved.filled filled) fun _ _ filled =>
      translated.filled_back filled)
  · obtain ⟨_, onTop⟩ := box.onTop
    obtain ⟨i, j, there, _⟩ := translated.moved.filled onTop
    exact absurd there (none' i j)
  · obtain ⟨_, onTop⟩ := box'.onTop
    obtain ⟨r, c, here, _⟩ := translated.filled_back onTop
    exact absurd here (none r c)
  · exact .inr ⟨none, none', origin, origin'⟩

theorem Translated.value_eq (translated : Translated first second dr dc) {r c i j : Nat} {here there : Int}
    (found : first.get? r c = some here) (found' : second.get? i j = some there) (row : (i : Int) = r + dr)
    (column : (j : Int) = c + dc) : here = there := by
  have first_at : first.at? r c = some here := (Grid.at?_natCast ..).trans found
  have second_at : second.at? i j = some there := (Grid.at?_natCast ..).trans found'
  by_cases filled : here = 0
  · by_contra apart
    have back := translated.back.at? second_at fun zero => apart (filled.trans zero.symm)
    have origin : (i : Int) + -dr = r := by omega
    have across : (j : Int) + -dc = c := by omega
    rw [origin, across, first_at] at back
    exact apart (Option.some.inj back)
  · have moved := translated.moved.at? first_at filled
    rw [← row, ← column, second_at] at moved
    exact (Option.some.inj moved).symm

theorem croppedLayout_translated (translated : Translated first second dr dc) (savable : Savable first)
    (savable' : Savable second) : croppedLayout first = croppedLayout second := by
  obtain ⟨top, bottom, left, right, box, ordered, below, across, before, -, height, width, cells⟩ :=
    croppedLayout_spec savable
  obtain ⟨top', bottom', left', right', box', ordered', below', across', before', -, height', width', cells'⟩ :=
    croppedLayout_spec savable'
  rcases translated.box box box' with ⟨rows, rows', cols, cols'⟩ | ⟨none, none', origin, origin'⟩
  · refine Grid.ext_get? (by omega) (by omega) fun i j row col => ?_
    obtain ⟨here, found⟩ := (first.exists_get?_iff (top + i) (left + j)).mpr (by omega)
    obtain ⟨there, found'⟩ := (second.exists_get?_iff (top' + i) (left' + j)).mpr (by omega)
    rw [cells i j (by omega) (by omega), cells' i j (by omega) (by omega), found, found']
    exact congrArg some (translated.value_eq found found' (by omega) (by omega))
  · refine Grid.ext_get? (by omega) (by omega) fun i j row col => ?_
    obtain ⟨here, found⟩ := (first.exists_get?_iff (top + i) (left + j)).mpr (by omega)
    obtain ⟨there, found'⟩ := (second.exists_get?_iff (top' + i) (left' + j)).mpr (by omega)
    have zero : here = 0 := by_contra fun filled => none _ _ ⟨here, found, filled⟩
    have zero' : there = 0 := by_contra fun filled => none' _ _ ⟨there, found', filled⟩
    rw [cells i j (by omega) (by omega), cells' i j (by omega) (by omega), found, found', zero, zero']

end

/-- The cropped map is all of the map that the file depends on. -/
theorem savedConfig_of_cropped (config : LevelConfig) {layout : MapLayout}
    (same : croppedLayout config.layout = croppedLayout layout) :
    savedConfig { config with layout } = savedConfig config := by
  have used : usedIn layout = usedIn config.layout := congrArg (fun grid : MapLayout => oldIdsSorted grid.data) same.symm
  have saved : savedLayout layout = savedLayout config.layout := by rw [savedLayout, savedLayout, used, same]
  simp only [savedConfig, used, saved]

section
variable {layout : MapLayout} {maxRows maxCols : Nat} (rows : layout.rows ≤ maxRows) (cols : layout.cols ≤ maxCols)
include rows cols

theorem expanded_translated : Translated layout (expandMapToEditorSize layout maxRows maxCols) 0 0 := by
  obtain ⟨height, width⟩ := expandMapToEditorSize_shape layout maxRows maxCols
  constructor
  · rintro ⟨r, c, value⟩ member _
    have found := Grid.mem_cells.mp member
    have inside := Grid.inside_of_get? found
    have kept : (expandMapToEditorSize layout maxRows maxCols).get? r c = some value := by
      rw [expandMapToEditorSize_get? layout (by omega) (by omega), cellAt_of_get? found]
    rw [Int.add_zero, Int.add_zero, Grid.at?_natCast]
    exact kept
  · rintro ⟨r, c, value⟩ member filled
    have found := Grid.mem_cells.mp member
    have inside := Grid.inside_of_get? found
    rw [expandMapToEditorSize_get? layout (by omega) (by omega)] at found
    rw [Int.neg_zero, Int.add_zero, Int.add_zero, Grid.at?_natCast]
    by_cases within : r < layout.rows ∧ c < layout.cols
    · obtain ⟨original, cell⟩ := (layout.exists_get?_iff r c).mpr within
      rwa [cellAt_of_get? cell, ← cell] at found
    · rw [cellAt_of_outside within] at found
      exact absurd (Option.some.inj found).symm filled

theorem expanded_savable (savable : Savable layout) : Savable (expandMapToEditorSize layout maxRows maxCols) := by
  obtain ⟨height, width⟩ := expandMapToEditorSize_shape layout maxRows maxCols
  have tall := savable.rows
  have wide := savable.cols
  refine ⟨by omega, by omega, fun r c value found => ?_⟩
  have inside := Grid.inside_of_get? found
  rw [expandMapToEditorSize_get? layout (by omega) (by omega)] at found
  cases found
  by_cases within : r < layout.rows ∧ c < layout.cols
  · obtain ⟨original, cell⟩ := (layout.exists_get?_iff r c).mpr within
    rw [cellAt_of_get? cell]
    exact savable.cells r c original cell
  · rw [cellAt_of_outside within]
    decide

end

theorem saveLevelConfig_translated {config : LevelConfig} {layout : MapLayout} {dr dc : Int}
    (savable : Savable config.layout) (savable' : Savable layout) (translated : Translated config.layout layout dr dc) :
    saveLevelConfig { config with layout } = saveLevelConfig config := by
  have other : saveLevelConfig { config with layout } = .ok (configJson (savedConfig { config with layout })) :=
    saveLevelConfig_eq savable'
  rw [other, saveLevelConfig_eq savable,
    savedConfig_of_cropped config (croppedLayout_translated translated savable savable')]

/-- A level is written, and written alike from every canvas its non-empty cells are moved
to and from every canvas it is padded to. -/
theorem save_ignores_canvas {config : LevelConfig} (savable : Savable config.layout) :
    ∃ file, saveLevelConfig config = .ok file ∧
      (∀ layout dr dc, Savable layout → Translated config.layout layout dr dc →
        saveLevelConfig { config with layout } = .ok file) ∧
      ∀ maxRows maxCols, config.layout.rows ≤ maxRows → config.layout.cols ≤ maxCols →
        saveLevelConfig { config with layout := expandMapToEditorSize config.layout maxRows maxCols } = .ok file := by
  have written := saveLevelConfig_eq savable
  refine ⟨_, written, fun layout dr dc savable' translated => ?_, fun maxRows maxCols rows cols => ?_⟩
  · rw [saveLevelConfig_translated savable savable' translated, written]
  · rw [saveLevelConfig_translated savable (expanded_savable rows cols savable) (expanded_translated rows cols), written]

/-- A wall beside the player. -/
def wallBesidePlayer : LevelConfig where
  name := emptyString
  nextLevel := emptyString
  textureBackground := emptyString
  objects := [emptyObject, playerObject, ⟨4, truncated 256 room256 (text "wall"), emptyString, emptyString⟩]
  layout := ⟨2, [[1, 4]], by decide⟩

/-- The same cells in the lower right corner of a larger map. -/
theorem wallBesidePlayer_moved :
    ∃ file, saveLevelConfig wallBesidePlayer = .ok file ∧
      saveLevelConfig { wallBesidePlayer with
        layout := (⟨4, [[0, 0, 0, 0], [0, 0, 1, 4]], by decide⟩ : MapLayout) } = .ok file := by
  have small (layout : MapLayout) (cells : ∀ cell ∈ layout.cells, 0 ≤ cell.2.2 ∧ cell.2.2 ≤ 255) (r c : Nat) (value : Int)
      (found : layout.get? r c = some value) : 0 ≤ value ∧ value ≤ 255 :=
    cells _ (Grid.mem_cells.mpr found)
  obtain ⟨file, written, moved, _⟩ :=
    save_ignores_canvas (show Savable wallBesidePlayer.layout from ⟨by decide, by decide, small _ (by decide)⟩)
  exact ⟨file, written, moved _ 1 2 ⟨by decide, by decide, small _ (by decide)⟩ ⟨by decide, by decide⟩⟩

end Trigger.Editor
