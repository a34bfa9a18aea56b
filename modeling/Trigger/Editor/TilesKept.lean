import Trigger.Editor.Session

/-! Which tiles of a level file are on the map once the editor has opened it: the map is
padded or cut to the size of the editor, the palette is merged, and the loop of `main`
clears the ids from the number of objects on.
-/

set_option autoImplicit false

namespace Trigger.Editor
open Foundation Config

/-- The level opens to a map of the size of the editor. Of the given cells of the original
those with a palette id are where they were and the others are empty, and the map is empty
where the original has no cell. -/
def KeepsTiles (listing : Option (List Bytes)) (config : LevelConfig) (given : Nat → Nat → Prop) : Prop :=
  ∃ opened, openLevel listing config = .ok opened ∧
    opened.layout.rows = editorMaxSize ∧ opened.layout.cols = editorMaxSize ∧
    (∀ r c id, given r c → config.layout.get? r c = some id → PaletteId opened.objects id →
      opened.layout.get? r c = some id) ∧
    (∀ r c id, given r c → config.layout.get? r c = some id → ¬ PaletteId opened.objects id →
      opened.layout.get? r c = some 0) ∧
    ∀ r c, r < editorMaxSize → c < editorMaxSize → config.layout.get? r c = none → opened.layout.get? r c = some 0

/-- The merge succeeds, and each of the given cells is inside the editor and below the
number of palette objects exactly when it holds a palette id. -/
structure TilesFit (listing : Option (List Bytes)) (config : LevelConfig) (given : Nat → Nat → Prop) : Prop where
  textures : ∀ src ∈ config.objects, (correctedTexture src).length < 256
  files : ∀ fname ∈ pngNames listing, (resourcePath fname).length < 256
  numbers : newFileCount listing config.objects = 0 ∨
    largestId config.objects + newFileCount listing config.objects ≤ intMax
  cells : ∀ r c id, given r c → config.layout.get? r c = some id → r < editorMaxSize ∧ c < editorMaxSize ∧
    (id < paletteSize listing config.objects ↔ Known listing config.objects id)

theorem openLevel_ok_iff {listing : Option (List Bytes)} {config opened : LevelConfig} :
    openLevel listing config = .ok opened ↔ ∃ palette, mergeObjectPalette listing config.objects = .ok palette ∧
      opened = { config with objects := palette, layout := openedLayout config.layout palette.length } := by
  rw [openLevel]
  simp only [bind_ok_iff]
  constructor
  · rintro ⟨palette, merged, same⟩
    cases same
    exact ⟨palette, merged, rfl⟩
  · rintro ⟨palette, merged, rfl⟩
    exact ⟨palette, merged, rfl⟩

section
variable {layout : MapLayout} {count r c : Nat} {id : Int}

theorem openedLayout_of_get? (row : r < editorMaxSize) (col : c < editorMaxSize) (found : layout.get? r c = some id) :
    (openedLayout layout count).get? r c = some (if id < count then id else 0) := by
  rw [openedLayout_cell row col, cellAt_of_get? found]
  by_cases kept : id < count
  · rw [if_pos kept, if_neg (by omega)]
  · rw [if_neg kept, if_pos (by omega)]

theorem openedLayout_of_none (row : r < editorMaxSize) (col : c < editorMaxSize) (none : layout.get? r c = none) :
    (openedLayout layout count).get? r c = some 0 := by
  rw [openedLayout_cell row col, cellAt_of_outside ((layout.get?_eq_none_iff r c).mp none), ite_self]

end

theorem known_zero (listing : Option (List Bytes)) (objects : List ObjectConfig) : Known listing objects 0 := .inl rfl

/-- Opening keeps the tiles of the given cells exactly when the merge succeeds and these
cells fit. -/
theorem keepsTiles_iff (listing : Option (List Bytes)) (config : LevelConfig) (given : Nat → Nat → Prop) :
    KeepsTiles listing config given ↔ TilesFit listing config given := by
  constructor
  · rintro ⟨opened, found, rows, cols, kept, cleared, -⟩
    obtain ⟨palette, merged, rfl⟩ := openLevel_ok_iff.mp found
    obtain ⟨textures, files, length, ids⟩ := mergeObjectPalette_ids merged
    have numbers := (mergeObjectPalette_succeeds_iff.mp ⟨palette, merged⟩).2.2
    refine ⟨textures, files, numbers, fun r c id here cell => ?_⟩
    rw [← length, ← ids id]
    by_cases listed : PaletteId palette id
    · have stays := kept r c id here cell listed
      have inside := Grid.inside_of_get? stays
      rw [rows, cols] at inside
      refine ⟨inside.1, inside.2, fun _ => listed, fun _ => ?_⟩
      rw [openedLayout_of_get? inside.1 inside.2 cell] at stays
      by_contra outside
      rw [if_neg outside] at stays
      -- Only an empty cell could be cleared and kept, and its id is below the number.
      cases stays
      have positive := List.length_pos_of_mem listed.choose_spec.1
      omega
    · have empty := cleared r c id here cell listed
      have inside := Grid.inside_of_get? empty
      rw [rows, cols] at inside
      refine ⟨inside.1, inside.2, fun below => ?_, fun known => absurd known listed⟩
      rw [openedLayout_of_get? inside.1 inside.2 cell, if_pos below] at empty
      cases empty
      exact (ids 0).mpr (known_zero listing config.objects)
  · rintro ⟨textures, files, numbers, cells⟩
    obtain ⟨palette, merged⟩ := mergeObjectPalette_succeeds_iff.mpr ⟨textures, files, numbers⟩
    obtain ⟨-, -, length, ids⟩ := mergeObjectPalette_ids merged
    have shape := openedLayout_shape config.layout palette.length
    refine ⟨_, openLevel_ok_iff.mpr ⟨palette, merged, rfl⟩, shape.1, shape.2, ?_, ?_, ?_⟩
    · intro r c id here cell listed
      obtain ⟨row, col, below⟩ := cells r c id here cell
      rw [openedLayout_of_get? row col cell, length, if_pos (below.mpr ((ids id).mp listed))]
    · intro r c id here cell unlisted
      obtain ⟨row, col, below⟩ := cells r c id here cell
      rw [openedLayout_of_get? row col cell, length, if_neg fun kept => unlisted ((ids id).mpr (below.mp kept))]
    · intro r c row col none
      exact openedLayout_of_none row col none

def sparseLevel : LevelConfig where
  name := emptyString
  nextLevel := emptyString
  textureBackground := emptyString
  objects := [⟨5, truncated 256 room256 (text "wall"), emptyString, emptyString⟩]
  layout := ⟨1, [[5]], by decide⟩

/-- The palette has three objects, so the cell is cleared although its id is one of them. -/
theorem sparseLevel_loses_tile : ¬ KeepsTiles none sparseLevel fun _ _ => True := by
  rintro ⟨opened, found, -, -, kept, -⟩
  obtain ⟨palette, merged, rfl⟩ := openLevel_ok_iff.mp found
  have three : mergeObjectPalette none sparseLevel.objects = .ok
      [⟨5, truncated 256 room256 (text "wall"), emptyString, emptyString⟩, emptyObject, playerObject] := rfl
  cases three.symm.trans merged
  have cell : sparseLevel.layout.get? 0 0 = some 5 := rfl
  have stays := kept 0 0 5 trivial cell ⟨_, List.mem_cons_self .., rfl⟩
  rw [openedLayout_of_get? (by decide) (by decide) cell] at stays
  cases stays

end Trigger.Editor
