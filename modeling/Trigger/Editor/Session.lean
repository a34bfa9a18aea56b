import Trigger.Editor.Identity
import Trigger.Editor.Reopen
import Trigger.Engine.Indices

/-! A session of the editor: a level file is opened or a new map is made, tiles
are picked from the palette and painted, and the map is saved.

A click is reduced to the row of the palette or the cell of the map it falls on.
What is drawn and how the view moves do not reach the map.
-/

set_option autoImplicit false

namespace Trigger.Editor
open Foundation Config Engine

def itemsPerPage : Nat := 17

/-- The file named on the command line, and what the parser makes of it. -/
inductive MapFile where
  | absent
  | present (parsed : Option Json)

/-- `currentTile` and `palettePage` of `main`, beside the level that is edited. -/
structure EditorSession where
  config : LevelConfig
  currentTile : Int
  palettePage : Int

def createDefaultConfig : LevelConfig where
  name := ⟨text "Default", by decide⟩
  nextLevel := emptyString
  textureBackground := ⟨text "resources/backgrounds/default_bg.png", by decide⟩
  objects := []
  layout := Grid.ofFn editorMaxSize editorMaxSize fun _ _ => 0

/-- `CreateDefaultConfig` followed by `BuildObjectPalette`. -/
def newLevel (listing : Option (List Bytes)) : LevelConfig :=
  { createDefaultConfig with objects := buildObjectPalette listing }

/-- `ExpandMapToEditorSize` of a map as the loader left it. -/
def expandLoaded (layout : LoadedLayout) (maxRows maxCols : Nat) : Except Fault MapLayout := do
  let rows ← assigned layout.rows
  let cols ← assigned layout.cols
  -- The table of rows is freed or kept, so its pointer is read even when no cell is.
  let _ ← assigned layout.data
  Grid.tabulate maxRows maxCols fun r c =>
    if (r : Int) < rows ∧ (c : Int) < cols then layout.readCell r c else .ok 0

/-- The branch of `main` for a level file, from what the loader left in memory. -/
def openLoaded (listing : Option (List Bytes)) (stored : LoadedConfig) : Except Fault LevelConfig := do
  let expanded ← expandLoaded stored.layout editorMaxSize editorMaxSize
  let oldObjects ← stored.objects.mapM LoadedObject.read
  let objects ← mergeObjectPalette listing oldObjects
  return ⟨stored.name, stored.nextLevel, stored.textureBackground, objects, resetForeign expanded objects.length⟩

/-- The part of `main` between the two branches and its loop. -/
def startSession (loads : Bytes → Bool) (config : LevelConfig) : Except Fault EditorSession := do
  let _ ← initTextureManager loads config.objects
  match config.objects with
  | [] => .error .outOfBounds
  | first :: _ => return ⟨config, first.id, 0⟩

/-- A file that cannot be parsed ends the program before its window opens. -/
def openEditor (loads : Bytes → Bool) (listing : Option (List Bytes)) :
    MapFile → Except Fault (Option EditorSession)
  | .absent => do
    -- A new map is saved at once.
    let _ ← saveLevelConfig (newLevel listing)
    (startSession loads (newLevel listing)).map some
  | .present parsed => do
    let loaded ← loadLevelFile parsed
    match loaded with
    | none => return none
    | some stored => do
      let config ← openLoaded listing stored
      (startSession loads config).map some

inductive EditorAction where
  | clickPalette (rowInPalette : Int)
  | clickMap (row col : Int)
  | previousPage
  | nextPage
  | save

def totalPages (config : LevelConfig) : Int := (config.countObjects + itemsPerPage - 1) / itemsPerPage

def paletteObject (session : EditorSession) (rowInPalette : Int) : Option ObjectConfig :=
  if 0 ≤ rowInPalette ∧ rowInPalette < itemsPerPage then
    let objIndex := session.palettePage * itemsPerPage + rowInPalette
    if 0 ≤ objIndex then session.config.objects[objIndex.toNat]? else none
  else none

def paintCell (session : EditorSession) (row col : Int) : EditorSession :=
  let layout := session.config.layout
  if 0 ≤ row ∧ row < layout.rows ∧ 0 ≤ col ∧ col < layout.cols then
    { session with config := { session.config with layout := layout.set row.toNat col.toNat session.currentTile } }
  else session

def editorStep (session : EditorSession) : EditorAction → Except Fault EditorSession
  | .clickPalette rowInPalette =>
    match paletteObject session rowInPalette with
    | some object => .ok { session with currentTile := object.id }
    | none => .ok session
  | .clickMap row col => .ok (paintCell session row col)
  | .previousPage =>
    let pages := totalPages session.config
    .ok { session with palettePage := (session.palettePage - 1 + pages).tmod pages }
  | .nextPage => .ok { session with palettePage := (session.palettePage + 1).tmod (totalPages session.config) }
  | .save => (saveLevelConfig session.config).map fun _ => session

/-! ## The property -/

def PaletteId (objects : List ObjectConfig) (id : Int) : Prop := ∃ object ∈ objects, object.id = id

/-- What a call of `SaveLevelConfig` relies on: each cell is the id of an object and an
index of the tables, each copied id has a rank, and the file is written. -/
structure SavesCleanly (config : LevelConfig) : Prop where
  cells : ∀ r c id, config.layout.get? r c = some id →
    PaletteId config.objects id ∧ 0 ≤ id ∧ id < maxObjects
  ranks : ∃ newData, copyBox config.layout (boundingBox config.layout) = .ok newData ∧
    ∀ id ∈ newData.flatten, (∃ rank : Nat, renumber (oldIdsSorted newData) id = .ok rank) ∧
      ∃ src, objectById config.objects id = some src
  written : ∃ file, saveLevelConfig config = .ok file

/-- The editor opens, and in whatever state its actions lead to the map can be saved
and the current tile is one of the palette. -/
def EditorSafe (loads : Bytes → Bool) (listing : Option (List Bytes)) (file : MapFile) : Prop :=
  ∃ opened, openEditor loads listing file = .ok opened ∧ ∀ session ∈ opened, ∀ actions,
    ∃ last, run editorStep session actions = .ok last ∧ SavesCleanly last.config ∧
      PaletteId last.config.objects last.currentTile

def largestId (objects : List ObjectConfig) : Int :=
  ((objects.map ObjectConfig.id).filter fun id => 2 ≤ id).foldr max 0

def newFileCount (listing : Option (List Bytes)) (objects : List ObjectConfig) : Nat :=
  ((pngNames listing).filter fun fname =>
    !objects.any fun src => correctedTexture src = resourcePath fname).toFinset.card

/-- The loaded objects, the empty object and the player where they are missing, and the new files. -/
def paletteSize (listing : Option (List Bytes)) (objects : List ObjectConfig) : Nat :=
  objects.length + (fixedObjects objects).length + newFileCount listing objects

/-- The id of a loaded object, one of the fixed ids, or the number of a new file. -/
def Known (listing : Option (List Bytes)) (objects : List ObjectConfig) (id : Int) : Prop :=
  id = 0 ∨ id = 1 ∨ PaletteId objects id ∨
    largestId objects < id ∧ id ≤ largestId objects + newFileCount listing objects

/-- The paths fit, the ids of the palette are positions in it and index the tables, and a
cell that is not cleared has an object. -/
structure SafeLevel (listing : Option (List Bytes)) (objects : List ObjectConfig) (layout : LoadedLayout) : Prop where
  textures : ∀ src ∈ objects, (correctedTexture src).length < 256
  files : ∀ fname ∈ pngNames listing, (resourcePath fname).length < 256
  ids : ∀ id, Known listing objects id → 0 ≤ id ∧ id < paletteSize listing objects ∧ id < maxObjects
  cells : ∃ rows cols data, layout = ⟨some rows, some cols, some data⟩ ∧
    ∀ r c : Nat, r < editorMaxSize → c < editorMaxSize → (r : Int) < rows → (c : Int) < cols →
      ∃ id, layout.readCell r c = .ok id ∧ (id < paletteSize listing objects → Known listing objects id)

/-- The directory leaves the four fixed objects of a new map room, or the level is safe. -/
def SafeFile (listing : Option (List Bytes)) : MapFile → Prop
  | .absent => 4 + (pngNames listing).length ≤ maxObjects
  | .present none => True
  | .present (some json) => ∃ stored objects, loadLevelConfig json = .ok stored ∧
      stored.objects = objects.map LoadedObject.ofConfig ∧ SafeLevel listing objects stored.layout

theorem expandLoaded_ok_iff {layout : LoadedLayout} {maxRows maxCols : Nat} {grid : MapLayout} :
    expandLoaded layout maxRows maxCols = .ok grid ↔
      ∃ rows cols data, layout = ⟨some rows, some cols, some data⟩ ∧ grid.rows = maxRows ∧ grid.cols = maxCols ∧
        ∀ r c : Nat, r < maxRows → c < maxCols → ∃ id,
          (if (r : Int) < rows ∧ (c : Int) < cols then layout.readCell r c else .ok 0) = .ok id ∧
            grid.get? r c = some id := by
  obtain ⟨rows, cols, data⟩ := layout
  simp only [expandLoaded, bind_ok_iff, Grid.tabulate_ok_iff, assigned_ok_iff, LoadedLayout.mk.injEq]
  constructor
  · rintro ⟨rows, rfl, cols, rfl, data, rfl, filled⟩
    exact ⟨rows, cols, data, ⟨rfl, rfl, rfl⟩, filled⟩
  · rintro ⟨rows, cols, data, ⟨rfl, rfl, rfl⟩, filled⟩
    exact ⟨rows, rfl, cols, rfl, data, rfl, filled⟩

theorem expandLoaded_succeeds {layout : LoadedLayout} {maxRows maxCols : Nat} {rows cols : Int}
    {data : List (List (Option Int))} (assigned : layout = ⟨some rows, some cols, some data⟩)
    (cells : ∀ r c : Nat, r < maxRows → c < maxCols → (r : Int) < rows → (c : Int) < cols →
      ∃ id, layout.readCell r c = .ok id) : ∃ grid, expandLoaded layout maxRows maxCols = .ok grid := by
  subst assigned
  refine Grid.tabulate_succeeds fun r c row col => ?_
  by_cases inside : (r : Int) < rows ∧ (c : Int) < cols
  · rw [if_pos inside]
    exact cells r c row col inside.1 inside.2
  · rw [if_neg inside]
    exact ⟨0, rfl⟩

/-- On a map whose every cell is assigned both models of the padding agree. -/
theorem expandLoaded_ofConfig (layout : MapLayout) (maxRows maxCols : Nat) :
    expandLoaded (.ofConfig layout) maxRows maxCols = .ok (expandMapToEditorSize layout maxRows maxCols) := by
  obtain ⟨rows, cols⟩ := expandMapToEditorSize_shape layout maxRows maxCols
  refine expandLoaded_ok_iff.mpr ⟨_, _, _, rfl, rows, cols, fun r c row col => ?_⟩
  refine ⟨cellAt layout r c, ?_, expandMapToEditorSize_get? layout row col⟩
  by_cases inside : r < layout.rows ∧ c < layout.cols
  · obtain ⟨value, found⟩ := (layout.exists_get?_iff r c).mpr inside
    rw [if_pos (by omega), cellAt_of_get? found]
    exact LoadedLayout.readCell_ofConfig found
  · rw [if_neg (by omega), cellAt_of_outside inside]

theorem openLoaded_ofConfig (listing : Option (List Bytes)) (config : LevelConfig) :
    openLoaded listing (.ofConfig config) = openLevel listing config := by
  have objects : (config.objects.map LoadedObject.ofConfig).mapM LoadedObject.read = .ok config.objects :=
    mapM_read_ok_iff.mpr rfl
  rw [openLoaded, LoadedConfig.ofConfig, expandLoaded_ofConfig, objects]
  rfl

theorem largestId_nonneg (objects : List ObjectConfig) : 0 ≤ largestId objects := by
  induction objects with
  | nil => simp [largestId]
  | cons head rest ih =>
    by_cases large : 2 ≤ head.id
    · simpa [largestId, large] using .inr ih
    · simpa [largestId, large] using ih

theorem foldl_trackMaxId (objects : List ObjectConfig) : objects.foldl trackMaxId 0 = largestId objects := by
  have tracked (start : Int) (nonneg : 0 ≤ start) :
      objects.foldl trackMaxId start = max start (largestId objects) := by
    induction objects generalizing start with
    | nil => simp [largestId, nonneg]
    | cons head rest ih =>
      have step : trackMaxId start head = max start (if 2 ≤ head.id then head.id else 0) := by
        unfold trackMaxId
        split <;> split <;> omega
      have later : largestId (head :: rest) = max (if 2 ≤ head.id then head.id else 0) (largestId rest) := by
        have := largestId_nonneg rest
        by_cases large : 2 ≤ head.id
        · simp [largestId, large]
        · simp only [if_neg large, max_eq_right this]
          simp [largestId, large]
      rw [List.foldl_cons, ih _ (by omega), step, later]
      omega
  rw [tracked 0 (Int.le_refl 0), max_eq_right (largestId_nonneg objects)]

theorem ne_heroFile_of_pngNames {listing : Option (List Bytes)} : ∀ fname ∈ pngNames listing, fname ≠ heroFile := by
  intro fname listed
  cases listing with
  | none => cases listed
  | some paths =>
    rw [pngNames, List.mem_filter] at listed
    exact of_decide_eq_true listed.2

theorem withFixed_ids {objects loaded : List ObjectConfig} (copies : Copies objects loaded) (id : Int) :
    (∃ object ∈ withFixed objects loaded, object.id = id) ↔ id = 0 ∨ id = 1 ∨ PaletteId objects id := by
  constructor
  · rintro ⟨object, member, rfl⟩
    rw [withFixed_eq, List.mem_append] at member
    rcases member with loadedObject | fixed
    · have listed : object.id ∈ objects.map ObjectConfig.id := copies.ids ▸ List.mem_map_of_mem loadedObject
      exact .inr (.inr (List.mem_map.mp listed))
    · rcases mem_fixedObjects_iff.mp fixed with ⟨rfl, -⟩ | ⟨rfl, -⟩
      · exact .inl rfl
      · exact .inr (.inl rfl)
  · rintro (rfl | rfl | ⟨src, member, rfl⟩)
    · exact withFixed_empty copies
    · obtain ⟨object, member, one, -⟩ := withFixed_player copies
      exact ⟨object, member, one⟩
    · obtain ⟨object, listed, same, -⟩ := copies.exists_of_mem member
      rw [withFixed_eq]
      exact ⟨object, List.mem_append_left _ listed, same⟩

theorem missingCount_withFixed {listing : Option (List Bytes)} {objects loaded : List ObjectConfig}
    (copies : Copies objects loaded) :
    missingCount (withFixed objects loaded) (pngNames listing) = newFileCount listing objects :=
  congrArg (fun names : List Bytes => names.toFinset.card) (missingFiles_withFixed copies ne_heroFile_of_pngNames)

theorem mergeObjectPalette_ids {listing : Option (List Bytes)} {objects palette : List ObjectConfig}
    (merged : mergeObjectPalette listing objects = .ok palette) :
    (∀ src ∈ objects, (correctedTexture src).length < 256) ∧
      (∀ fname ∈ pngNames listing, (resourcePath fname).length < 256) ∧
      palette.length = paletteSize listing objects ∧ ∀ id, PaletteId palette id ↔ Known listing objects id := by
  obtain ⟨loaded, traversed, merged⟩ := bind_ok_iff.mp merged
  obtain ⟨merging, files, same⟩ := bind_ok_iff.mp merged
  cases same
  have textures : ∀ src ∈ objects, (correctedTexture src).length < 256 := by
    intro src member
    obtain ⟨object, copied⟩ := mapM_succeeds_iff.mp ⟨loaded, traversed⟩ src member
    exact correctedTexture_fits copied
  obtain ⟨copied, found, copies⟩ := copies_of_short textures
  cases traversed.symm.trans found
  obtain ⟨length, ids⟩ := mergePngs_numbered files
  simp only [missingCount_withFixed copies, foldl_trackMaxId] at length ids
  refine ⟨textures, (mergePngs_extends files).1, ?_, fun id => ?_⟩
  · have kept : objects.length = loaded.length := copies.length_eq
    rw [length, withFixed_eq, List.length_append, ← kept]
    rfl
  · rw [PaletteId, ids, withFixed_ids copies, Known]
    simp only [or_assoc]

/-- The merge succeeds exactly when the paths fit and there are numbers for the new files. -/
theorem mergeObjectPalette_succeeds_iff {listing : Option (List Bytes)} {objects : List ObjectConfig} :
    (∃ palette, mergeObjectPalette listing objects = .ok palette) ↔
      (∀ src ∈ objects, (correctedTexture src).length < 256) ∧
        (∀ fname ∈ pngNames listing, (resourcePath fname).length < 256) ∧
        (newFileCount listing objects = 0 ∨ largestId objects + newFileCount listing objects ≤ intMax) := by
  constructor
  · rintro ⟨palette, merged⟩
    obtain ⟨textures, files, -⟩ := mergeObjectPalette_ids merged
    obtain ⟨loaded, traversed, rest⟩ := bind_ok_iff.mp merged
    obtain ⟨merging, looped, -⟩ := bind_ok_iff.mp rest
    obtain ⟨copied, found, copies⟩ := copies_of_short textures
    cases traversed.symm.trans found
    have room := mergePngs_room looped
    rw [missingCount_withFixed copies, foldl_trackMaxId] at room
    exact ⟨textures, files, room⟩
  · rintro ⟨textures, files, room⟩
    obtain ⟨loaded, traversed, copies⟩ := copies_of_short textures
    rw [← missingCount_withFixed copies, ← foldl_trackMaxId] at room
    obtain ⟨merged, found⟩ := mergePngs_succeed ⟨withFixed objects loaded, objects.foldl trackMaxId 0⟩ files room
    exact ⟨merged.temp, bind_ok_iff.mpr ⟨loaded, traversed, bind_ok_iff.mpr ⟨merged, found, rfl⟩⟩⟩

/-- Every id on the map and the current tile are ids of the palette, and these index the tables. -/
structure InPalette (session : EditorSession) : Prop where
  rows : 1 ≤ session.config.layout.rows
  cols : 1 ≤ session.config.layout.cols
  range : ∀ object ∈ session.config.objects, 0 ≤ object.id ∧ object.id < maxObjects
  cells : ∀ r c id, session.config.layout.get? r c = some id → PaletteId session.config.objects id
  tile : PaletteId session.config.objects session.currentTile

theorem InPalette.savable {session : EditorSession} (sound : InPalette session) : Savable session.config.layout := by
  refine .of_painted sound.rows sound.cols (fun object member => ?_) sound.cells
  have := sound.range object member
  simp only [maxObjects] at this
  omega

theorem exists_objectById {objects : List ObjectConfig} {id : Int} (known : PaletteId objects id) :
    ∃ src, objectById objects id = some src := by
  obtain ⟨object, member, same⟩ := known
  exact Option.ne_none_iff_exists'.mp fun none => objectById_eq_none_iff.mp none object member same

theorem InPalette.saves {session : EditorSession} (sound : InPalette session) : SavesCleanly session.config where
  cells r c id found := by
    obtain ⟨object, member, rfl⟩ := sound.cells r c id found
    exact ⟨⟨object, member, rfl⟩, sound.range object member⟩
  ranks := by
    refine ⟨_, copyBox_eq sound.savable, fun id member => ?_⟩
    have used : id ∈ usedIn session.config.layout :=
      (mem_usedIn_iff sound.savable).mpr (Grid.mem_flatten_iff.mp member)
    obtain ⟨_, _, _, _, r, c, -, -, -, -, -, found⟩ := (boxHolds_iff sound.savable).mpr used
    exact ⟨⟨_, renumber_eq used⟩, exists_objectById (sound.cells r c id found)⟩
  written := ⟨_, saveLevelConfig_eq sound.savable⟩

theorem paintCell_inPalette {session : EditorSession} (sound : InPalette session) (row col : Int) :
    InPalette (paintCell session row col) := by
  unfold paintCell
  dsimp only
  split
  · refine ⟨?_, ?_, sound.range, fun r c id found => ?_, sound.tile⟩
    · rw [Grid.rows_set]
      exact sound.rows
    · rw [Grid.cols_set]
      exact sound.cols
    · rcases Grid.get?_set_of_some found with rfl | old
      · exact sound.tile
      · exact sound.cells r c id old
  · exact sound

theorem paletteObject_mem {session : EditorSession} {rowInPalette : Int} {object : ObjectConfig}
    (picked : paletteObject session rowInPalette = some object) : object ∈ session.config.objects := by
  unfold paletteObject at picked
  split at picked
  · dsimp only at picked
    split at picked
    · exact List.mem_of_getElem? picked
    · cases picked
  · cases picked

theorem editorStep_inPalette {session : EditorSession} (sound : InPalette session) (action : EditorAction) :
    ∃ next, editorStep session action = .ok next ∧ InPalette next := by
  cases action with
  | clickPalette rowInPalette =>
    cases picked : paletteObject session rowInPalette with
    | none => exact ⟨session, by simp only [editorStep, picked], sound⟩
    | some object =>
      refine ⟨{ session with currentTile := object.id }, by simp only [editorStep, picked], ?_⟩
      exact { sound with tile := ⟨object, paletteObject_mem picked, rfl⟩ }
  | clickMap row col => exact ⟨_, rfl, paintCell_inPalette sound row col⟩
  | previousPage => exact ⟨_, rfl, { sound with }⟩
  | nextPage => exact ⟨_, rfl, { sound with }⟩
  | save =>
    obtain ⟨file, written⟩ := sound.saves.written
    exact ⟨session, map_ok_iff.mpr ⟨file, written, rfl⟩, sound⟩

theorem run_inPalette {session : EditorSession} (sound : InPalette session) (actions : List EditorAction) :
    ∃ last, run editorStep session actions = .ok last ∧ InPalette last :=
  run_completes InPalette (fun _ action holds => editorStep_inPalette holds action) sound actions

theorem startSession_ok_iff {loads : Bytes → Bool} {config : LevelConfig} {session : EditorSession} :
    startSession loads config = .ok session ↔
      (∀ object ∈ config.objects, 0 ≤ object.id ∧ object.id < config.objects.length ∧ object.id < maxTextures) ∧
        ∃ first, config.objects.head? = some first ∧ session = ⟨config, first.id, 0⟩ := by
  rw [startSession, bind_ok_iff, ← initTextureManager_ok_iff loads, exists_and_right]
  refine and_congr_right fun _ => ?_
  cases config.objects with
  | nil => simp
  | cons first rest => simp [pure, Except.pure, eq_comm]

theorem inPalette_of_started {loads : Bytes → Bool} {config : LevelConfig} {session : EditorSession}
    (started : startSession loads config = .ok session) (rows : 1 ≤ config.layout.rows)
    (cols : 1 ≤ config.layout.cols)
    (cells : ∀ r c id, config.layout.get? r c = some id → PaletteId config.objects id) : InPalette session := by
  obtain ⟨range, first, head, rfl⟩ := startSession_ok_iff.mp started
  refine ⟨rows, cols, fun object member => ?_, cells, first, List.mem_of_mem_head? head, rfl⟩
  exact ⟨(range object member).1, (range object member).2.2⟩

theorem largestId_cases (objects : List ObjectConfig) : largestId objects = 0 ∨ PaletteId objects (largestId objects) := by
  have attained := (trackMaxId_spec objects 0).2.2
  rw [foldl_trackMaxId] at attained
  rcases attained with zero | ⟨object, member, -, -, same⟩
  · exact .inl zero
  · exact .inr ⟨object, member, same⟩

theorem SafeLevel.numbers {listing : Option (List Bytes)} {objects : List ObjectConfig} {layout : LoadedLayout}
    (safe : SafeLevel listing objects layout) : largestId objects + newFileCount listing objects < maxObjects := by
  refine (safe.ids _ ?_).2.2
  by_cases none : newFileCount listing objects = 0
  · rw [none, Int.natCast_zero, Int.add_zero]
    rcases largestId_cases objects with zero | loaded
    · exact .inl zero
    · exact .inr (.inr (.inl loaded))
  · exact .inr (.inr (.inr ⟨by omega, Int.le_refl _⟩))

theorem safeLevel_of_opened {loads : Bytes → Bool} {listing : Option (List Bytes)} {stored : LoadedConfig}
    {config : LevelConfig} {session : EditorSession} (opened : openLoaded listing stored = .ok config)
    (started : startSession loads config = .ok session)
    (cells : ∀ r c id, config.layout.get? r c = some id → PaletteId config.objects id) :
    ∃ objects, stored.objects = objects.map LoadedObject.ofConfig ∧ SafeLevel listing objects stored.layout := by
  obtain ⟨expanded, padded, opened⟩ := bind_ok_iff.mp opened
  obtain ⟨objects, read, opened⟩ := bind_ok_iff.mp opened
  obtain ⟨palette, merged, opened⟩ := bind_ok_iff.mp opened
  cases opened
  obtain ⟨textures, files, length, known⟩ := mergeObjectPalette_ids merged
  obtain ⟨range, -⟩ := startSession_ok_iff.mp started
  refine ⟨objects, mapM_read_ok_iff.mp read, textures, files, fun id listed => ?_, ?_⟩
  · obtain ⟨object, member, rfl⟩ := (known id).mpr listed
    rw [← length]
    exact range object member
  · obtain ⟨rows, cols, data, same, -, -, filled⟩ := expandLoaded_ok_iff.mp padded
    refine ⟨rows, cols, data, same, fun r c row col inRows inCols => ?_⟩
    obtain ⟨id, value, found⟩ := filled r c row col
    rw [if_pos ⟨inRows, inCols⟩] at value
    refine ⟨id, value, fun kept => (known id).mp (cells r c id ?_)⟩
    rw [resetForeign, Grid.get?_map, found, Option.map_some, if_neg (by omega)]

theorem SafeLevel.expands {listing : Option (List Bytes)} {objects : List ObjectConfig} {layout : LoadedLayout}
    (safe : SafeLevel listing objects layout) :
    ∃ expanded, expandLoaded layout editorMaxSize editorMaxSize = .ok expanded := by
  obtain ⟨rows, cols, data, shape, cells⟩ := safe.cells
  refine expandLoaded_succeeds shape fun r c row col inRows inCols => ?_
  obtain ⟨id, loaded, -⟩ := cells r c row col inRows inCols
  exact ⟨id, loaded⟩

theorem SafeLevel.known {listing : Option (List Bytes)} {objects : List ObjectConfig} {layout : LoadedLayout}
    (safe : SafeLevel listing objects layout) {expanded : MapLayout}
    (padded : expandLoaded layout editorMaxSize editorMaxSize = .ok expanded) {r c : Nat} {id : Int}
    (found : (resetForeign expanded (paletteSize listing objects)).get? r c = some id) : Known listing objects id := by
  obtain ⟨rows, cols, data, shape, cells⟩ := safe.cells
  obtain ⟨_, _, _, same, height, width, filled⟩ := expandLoaded_ok_iff.mp padded
  cases shape.symm.trans same
  rw [resetForeign, Grid.get?_map] at found
  obtain ⟨value, foundValue, rfl⟩ := Option.map_eq_some_iff.mp found
  by_cases cleared : value ≥ paletteSize listing objects
  · rw [if_pos cleared]
    exact .inl rfl
  · rw [if_neg cleared]
    obtain ⟨row, col⟩ := Grid.inside_of_get? foundValue
    rw [height] at row
    rw [width] at col
    obtain ⟨other, computed, present⟩ := filled r c row col
    cases foundValue.symm.trans present
    by_cases inside : (r : Int) < rows ∧ (c : Int) < cols
    · rw [if_pos inside] at computed
      obtain ⟨id, loaded, kept⟩ := cells r c row col inside.1 inside.2
      cases loaded.symm.trans computed
      exact kept (by omega)
    · -- Beyond the loaded map the cells are empty.
      rw [if_neg inside] at computed
      cases computed
      exact .inl rfl

theorem startSession_of_known (loads : Bytes → Bool) {listing : Option (List Bytes)} {objects : List ObjectConfig}
    {layout : LoadedLayout} {config : LevelConfig} (safe : SafeLevel listing objects layout)
    (length : config.objects.length = paletteSize listing objects)
    (known : ∀ id, PaletteId config.objects id ↔ Known listing objects id) :
    ∃ session, startSession loads config = .ok session := by
  have range : ∀ object ∈ config.objects,
      0 ≤ object.id ∧ object.id < config.objects.length ∧ object.id < maxTextures := by
    intro object member
    rw [length]
    exact safe.ids object.id ((known object.id).mp ⟨object, member, rfl⟩)
  -- The palette holds the empty object, so it is not empty.
  obtain ⟨object, member, -⟩ := (known 0).mpr (.inl rfl)
  cases head : config.objects.head? with
  | none =>
    rw [List.head?_eq_none_iff.mp head] at member
    cases member
  | some first => exact ⟨_, startSession_ok_iff.mpr ⟨range, first, head, rfl⟩⟩

theorem opened_of_safeLevel (loads : Bytes → Bool) {listing : Option (List Bytes)} {stored : LoadedConfig}
    {objects : List ObjectConfig} (same : stored.objects = objects.map LoadedObject.ofConfig)
    (safe : SafeLevel listing objects stored.layout) :
    ∃ config session, openLoaded listing stored = .ok config ∧ startSession loads config = .ok session ∧
      InPalette session := by
  have numbers : largestId objects + newFileCount listing objects ≤ intMax :=
    safe.numbers.le.trans (by decide)
  obtain ⟨palette, merged⟩ := mergeObjectPalette_succeeds_iff.mpr ⟨safe.textures, safe.files, .inr numbers⟩
  obtain ⟨-, -, length, known⟩ := mergeObjectPalette_ids merged
  obtain ⟨expanded, padded⟩ := safe.expands
  have read : stored.objects.mapM LoadedObject.read = .ok objects := mapM_read_ok_iff.mpr same
  obtain ⟨config, opened, samePalette, sameLayout⟩ : ∃ config, openLoaded listing stored = .ok config ∧
      config.objects = palette ∧ config.layout = resetForeign expanded palette.length :=
    ⟨_, bind_ok_iff.mpr ⟨expanded, padded, bind_ok_iff.mpr ⟨objects, read,
      bind_ok_iff.mpr ⟨palette, merged, rfl⟩⟩⟩, rfl, rfl⟩
  subst samePalette
  obtain ⟨session, started⟩ := startSession_of_known loads safe length known
  obtain ⟨_, _, _, -, height, width, -⟩ := expandLoaded_ok_iff.mp padded
  refine ⟨config, session, opened, started, inPalette_of_started started ?_ ?_ fun r c id found => ?_⟩
  · rw [sameLayout, resetForeign, Grid.rows_map, height]
    decide
  · rw [sameLayout, resetForeign, Grid.cols_map, width]
    decide
  · rw [sameLayout, length] at found
    exact (known id).mpr (safe.known padded found)

/-- The editor opens a new map exactly when the ids of its palette fit the tables. -/
theorem newLevel_starts_iff (loads : Bytes → Bool) (listing : Option (List Bytes)) :
    (∃ session, startSession loads (newLevel listing) = .ok session) ↔
      4 + (pngNames listing).length ≤ maxObjects := by
  have palette := builtPalette listing
  have length := length_buildObjectPalette listing
  constructor
  · rintro ⟨session, started⟩
    -- The last object carries the largest id.
    have last : (buildObjectPalette listing).length - 1 < (buildObjectPalette listing).length := by omega
    have numbered := palette.numbered _ _ (List.getElem?_eq_getElem last)
    have range := (startSession_ok_iff.mp started).1 _ (List.getElem_mem last)
    simp only [maxTextures, maxObjects] at range ⊢
    omega
  · intro room
    refine ⟨_, startSession_ok_iff.mpr ⟨fun object member => ?_, emptyObject, ?_, rfl⟩⟩
    · obtain ⟨k, found⟩ := List.mem_iff_getElem?.mp member
      have id := palette.numbered k object found
      have inside : k < (buildObjectPalette listing).length := (List.getElem?_eq_some_iff.mp found).1
      rw [id]
      simp only [maxTextures, maxObjects] at room ⊢
      exact ⟨Int.natCast_nonneg k, Int.ofNat_lt.mpr inside, by omega⟩
    · rw [List.head?_eq_getElem?]
      exact palette.empty

theorem newLevel_get? {listing : Option (List Bytes)} {r c : Nat} {id : Int}
    (found : (newLevel listing).layout.get? r c = some id) : id = 0 := by
  rw [newLevel, createDefaultConfig, Grid.get?_ofFn] at found
  split at found
  · exact (Option.some.inj found).symm
  · cases found

theorem newLevel_savable (listing : Option (List Bytes)) : Savable (newLevel listing).layout where
  rows := by simp [newLevel, createDefaultConfig, editorMaxSize]
  cols := by simp [newLevel, createDefaultConfig, editorMaxSize]
  cells r c value found := by
    rw [newLevel_get? found]
    decide

theorem openEditor_absent_iff {loads : Bytes → Bool} {listing : Option (List Bytes)} {opened : Option EditorSession} :
    openEditor loads listing .absent = .ok opened ↔ ∃ session,
      startSession loads (newLevel listing) = .ok session ∧
        some session = opened := by
  rw [openEditor, bind_ok_iff]
  constructor
  · rintro ⟨file, -, rest⟩
    exact map_ok_iff.mp rest
  · exact fun started => ⟨_, saveLevelConfig_eq (newLevel_savable listing), map_ok_iff.mpr started⟩

theorem openEditor_present_iff {loads : Bytes → Bool} {listing : Option (List Bytes)} {json : Json}
    {opened : Option EditorSession} : openEditor loads listing (.present (some json)) = .ok opened ↔
      ∃ stored config session, loadLevelConfig json = .ok stored ∧ openLoaded listing stored = .ok config ∧
        startSession loads config = .ok session ∧ some session = opened := by
  simp only [openEditor, loadLevelFile, bind_ok_iff, map_ok_iff]
  constructor
  · rintro ⟨_, ⟨stored, loaded, rfl⟩, rest⟩
    obtain ⟨config, padded, rest⟩ := bind_ok_iff.mp rest
    obtain ⟨session, started, same⟩ := map_ok_iff.mp rest
    exact ⟨stored, config, session, loaded, padded, started, same⟩
  · rintro ⟨stored, config, session, loaded, padded, started, same⟩
    exact ⟨_, ⟨stored, loaded, rfl⟩, bind_ok_iff.mpr ⟨config, padded, map_ok_iff.mpr ⟨session, started, same⟩⟩⟩

theorem editorSafe_of_inPalette {loads : Bytes → Bool} {listing : Option (List Bytes)} {file : MapFile}
    {session : EditorSession} (opened : openEditor loads listing file = .ok (some session))
    (sound : InPalette session) : EditorSafe loads listing file := by
  refine ⟨some session, opened, fun other member actions => ?_⟩
  cases member
  obtain ⟨last, reached, kept⟩ := run_inPalette sound actions
  exact ⟨last, reached, kept.saves, kept.tile⟩

theorem safeFile_of_editorSafe {loads : Bytes → Bool} {listing : Option (List Bytes)} {file : MapFile}
    (safe : EditorSafe loads listing file) : SafeFile listing file := by
  obtain ⟨opened, found, runs⟩ := safe
  cases file with
  | absent =>
    obtain ⟨session, started, -⟩ := openEditor_absent_iff.mp found
    exact (newLevel_starts_iff loads listing).mp ⟨session, started⟩
  | present parsed =>
    cases parsed with
    | none => trivial
    | some json =>
      obtain ⟨stored, config, session, loaded, padded, started, rfl⟩ := openEditor_present_iff.mp found
      -- A save before any other action already meets every cell of the file.
      obtain ⟨last, reached, saves, -⟩ := runs session rfl []
      cases reached
      obtain ⟨-, first, -, rfl⟩ := startSession_ok_iff.mp started
      have cells (r c : Nat) (id : Int) (cell : config.layout.get? r c = some id) : PaletteId config.objects id :=
        (saves.cells r c id cell).1
      obtain ⟨objects, same, level⟩ := safeLevel_of_opened padded started cells
      exact ⟨stored, objects, loaded, same, level⟩

theorem editorSafe_of_safeFile (loads : Bytes → Bool) {listing : Option (List Bytes)} {file : MapFile}
    (safe : SafeFile listing file) : EditorSafe loads listing file := by
  cases file with
  | absent =>
    obtain ⟨session, started⟩ := (newLevel_starts_iff loads listing).mpr safe
    have shape := newLevel_savable listing
    refine editorSafe_of_inPalette (openEditor_absent_iff.mpr ⟨session, started, rfl⟩) ?_
    refine inPalette_of_started started shape.rows shape.cols fun r c id found => ?_
    rw [newLevel_get? found]
    exact ⟨emptyObject, List.mem_of_getElem? (builtPalette listing).empty, rfl⟩
  | present parsed =>
    cases parsed with
    | none => exact ⟨none, rfl, fun session member => by cases member⟩
    | some json =>
      obtain ⟨stored, objects, loaded, same, level⟩ := safe
      obtain ⟨config, session, padded, started, sound⟩ := opened_of_safeLevel loads same level
      exact editorSafe_of_inPalette (openEditor_present_iff.mpr ⟨stored, config, session, loaded, padded, started, rfl⟩)
        sound

/-- Every tile that is saved is an id of the palette within the tables, in every session, exactly
when the file is safe. -/
theorem editorSafe_iff (loads : Bytes → Bool) (listing : Option (List Bytes)) (file : MapFile) :
    EditorSafe loads listing file ↔ SafeFile listing file :=
  ⟨safeFile_of_editorSafe, editorSafe_of_safeFile loads⟩

/-- A level of one cell that holds no palette id: the loop of `main` clears the ids from the
number of objects on, and this one is below. -/
def negativeCellLevel : Json :=
  .object [(text "map", .object [
    (text "size", .object [(text "rows", .number 1), (text "cols", .number 1)]),
    (text "data", .array [.array [.number (-1)]])])]

theorem negativeCell_opened : ∃ session,
    openEditor (fun _ => true) none (.present (some negativeCellLevel)) = .ok (some session) ∧
      session.config.layout.get? 0 0 = some (-1) := by
  have loaded : loadLevelConfig negativeCellLevel = .ok ⟨emptyString, emptyString, emptyString, [],
    ⟨some 1, some 1, some [[some (-1)]]⟩⟩ := rfl
  obtain ⟨expanded, padded⟩ : ∃ expanded, expandLoaded ⟨some 1, some 1, some [[some (-1)]]⟩ editorMaxSize
      editorMaxSize = .ok expanded := by
    refine expandLoaded_succeeds rfl fun r c _ _ row col => ?_
    cases show r = 0 by omega
    cases show c = 0 by omega
    exact ⟨-1, rfl⟩
  obtain ⟨_, _, _, shape, -, -, filled⟩ := expandLoaded_ok_iff.mp padded
  cases shape
  obtain ⟨id, value, found⟩ := filled 0 0 (by decide) (by decide)
  cases value
  have merged : mergeObjectPalette none [] = .ok [emptyObject, playerObject] := rfl
  have opened : openLoaded none ⟨emptyString, emptyString, emptyString, [], ⟨some 1, some 1, some [[some (-1)]]⟩⟩ =
      .ok ⟨emptyString, emptyString, emptyString, [emptyObject, playerObject], resetForeign expanded 2⟩ :=
    bind_ok_iff.mpr ⟨expanded, padded, bind_ok_iff.mpr ⟨[], rfl, bind_ok_iff.mpr ⟨_, merged, rfl⟩⟩⟩
  have range : ∀ object ∈ [emptyObject, playerObject], 0 ≤ object.id ∧ object.id < 2 ∧ object.id < maxTextures := by
    decide
  have started : startSession (fun _ => true) ⟨emptyString, emptyString, emptyString, [emptyObject, playerObject],
      resetForeign expanded 2⟩ = .ok ⟨_, 0, 0⟩ := startSession_ok_iff.mpr ⟨range, emptyObject, rfl, rfl⟩
  refine ⟨_, openEditor_present_iff.mpr ⟨_, _, _, loaded, opened, started, rfl⟩, ?_⟩
  rw [resetForeign, Grid.get?_map, found]
  rfl

theorem negativeCell_not_editorSafe :
    ¬ EditorSafe (fun _ => true) none (.present (some negativeCellLevel)) := by
  rintro ⟨opened, found, runs⟩
  obtain ⟨session, started, cell⟩ := negativeCell_opened
  cases started.symm.trans found
  obtain ⟨last, reached, saves, -⟩ := runs session rfl []
  cases reached
  have range := (saves.cells 0 0 (-1) cell).2.1
  omega

end Trigger.Editor
