import Trigger.Editor.View
import Trigger.Foundation.Histories

/-! Frames of the editor: every frame completes, its picture is right, and a click changes
what it points at.
-/

set_option autoImplicit false

namespace Trigger.Editor
open Foundation Config Engine

variable {textures : TextureManager}

structure Workable (session : EditorSession) : Prop where
  sound : InPalette session
  rows : session.config.layout.rows = editorMaxSize
  cols : session.config.layout.cols = editorMaxSize
  onPage : OnPage session

theorem Workable.pages {session : EditorSession} (workable : Workable session) : 0 < totalPages session.config :=
  workable.onPage.low.trans_lt workable.onPage.high

theorem Workable.turned {session : EditorSession} (workable : Workable session) {page : Int} (low : 0 ≤ page) :
    Workable { session with palettePage := page.tmod (totalPages session.config) } where
  sound := { workable.sound with }
  rows := workable.rows
  cols := workable.cols
  onPage := ⟨Int.tmod_nonneg _ low, Int.tmod_lt_of_pos _ workable.pages⟩

theorem paintCell_workable {session : EditorSession} (workable : Workable session) (row col : Int) :
    Workable (paintCell session row col) := by
  have sound := paintCell_inPalette workable.sound row col
  unfold paintCell at sound ⊢
  dsimp only at sound ⊢
  split
  · next inside =>
    rw [if_pos inside] at sound
    exact ⟨sound, by rw [Grid.rows_set]; exact workable.rows, by rw [Grid.cols_set]; exact workable.cols,
      workable.onPage.low, workable.onPage.high⟩
  · exact workable

theorem editorStep_workable {session : EditorSession} (workable : Workable session) (action : EditorAction) :
    ∃ next, editorStep session action = .ok next ∧ Workable next := by
  cases action with
  | clickPalette rowInPalette =>
    obtain ⟨next, taken, sound⟩ := editorStep_inPalette workable.sound (.clickPalette rowInPalette)
    refine ⟨next, taken, ?_⟩
    rw [editorStep] at taken
    split at taken <;> cases taken
    · exact ⟨sound, workable.rows, workable.cols, workable.onPage.low, workable.onPage.high⟩
    · exact workable
  | clickMap row col => exact ⟨_, rfl, paintCell_workable workable row col⟩
  | previousPage =>
    have := workable.pages
    have := workable.onPage.low
    exact ⟨_, rfl, workable.turned (by omega)⟩
  | nextPage =>
    have := workable.onPage.low
    exact ⟨_, rfl, workable.turned (by omega)⟩
  | save =>
    obtain ⟨file, written⟩ := workable.sound.saves.written
    exact ⟨session, map_ok_iff.mpr ⟨file, written, rfl⟩, workable⟩

theorem keyActions_leave {session next : EditorSession} {input : EditorInput}
    (reached : run editorStep session (keyActions input) = .ok next) :
    next.config = session.config ∧ next.currentTile = session.currentTile := by
  have keys : ∀ action ∈ keyActions input, action = .previousPage ∨ action = .nextPage ∨ action = .save := by
    intro action member
    unfold keyActions at member
    split_ifs at member <;> simp at member <;> tauto
  have kept (state : EditorSession) (action : EditorAction) (next : EditorSession)
      (holds : state.config = session.config ∧ state.currentTile = session.currentTile)
      (key : action = .previousPage ∨ action = .nextPage ∨ action = .save)
      (taken : editorStep state action = .ok next) :
      next.config = session.config ∧ next.currentTile = session.currentTile := by
    rcases key with rfl | rfl | rfl
    · cases taken
      exact holds
    · cases taken
      exact holds
    · obtain ⟨file, -, rfl⟩ := map_ok_iff.mp taken
      exact holds
  exact run_invariant kept ⟨rfl, rfl⟩ (along_of_mem (fun action member _ => keys action member) session) reached

structure Picks (input : EditorInput) (item : DrawnItem) : Prop where
  click : input.click = true
  right : (gridAreaWidth : Rat) ≤ input.mouse.x
  band : InBand item input.mouse.y

/-- What the user can rely on in a frame: the map area shows the map and each of its pixels one
cell of it, a click there paints the cell under the mouse, which is the one highlighted, and
no other, and a click beside it picks what the palette shows there. -/
structure FrameMatches (before : EditorWindow) (input : EditorInput) (after : EditorWindow) : Prop where
  current : ∀ cell ∈ after.picture.cells, after.session.config.layout.get? cell.row cell.col = some cell.id ∧
    cell.texture = loadedTexture before.textures cell.id
  tiled : ∀ point, InMapArea point → ∃! cell, cell ∈ after.picture.cells ∧ CheckCollisionPointRec point cell.dest
  pointed : InMapArea input.mouse → ∃ cell ∈ after.picture.cells, CheckCollisionPointRec input.mouse cell.dest ∧
    after.picture.highlight = some cell.dest ∧ (input.click = true → cell.id = before.session.currentTile ∧
      ∀ i j, after.session.config.layout.get? i j =
        if i = cell.row ∧ j = cell.col then some before.session.currentTile else before.session.config.layout.get? i j)
  unpainted : ¬ (input.click = true ∧ input.mouse.x < gridAreaWidth) →
    after.session.config.layout = before.session.config.layout
  picked : ∃ items, drawItems before.textures before.session = .ok items ∧
    (∀ item ∈ items, input.click = true → CheckCollisionPointRec input.mouse item.box → Picks input item) ∧
    (∀ item ∈ items, Picks input item → after.session.currentTile = item.object.id) ∧
    ((∀ item ∈ items, ¬ Picks input item) → after.session.currentTile = before.session.currentTile)
  page : drawItems before.textures after.session = .ok after.picture.items ∧ after.picture.items ≠ []

theorem mouseActions_ok {session middle : EditorSession} {offset : Vector2 Rat} {input : EditorInput}
    (reached : run editorStep session (mouseActions offset input) = .ok middle) :
    (¬ input.click = true → middle = session) ∧
      (input.click = true → input.mouse.x < gridAreaWidth →
        middle = paintCell session (cellUnder offset input.mouse).1 (cellUnder offset input.mouse).2) ∧
      (input.click = true → (gridAreaWidth : Rat) ≤ input.mouse.x → middle =
        match paletteObject session (truncate ((input.mouse.y - 40) / 40)) with
        | some object => { session with currentTile := object.id }
        | none => session) := by
  by_cases click : input.click = true
  · by_cases right : (gridAreaWidth : Rat) ≤ input.mouse.x
    · rw [mouseActions, if_pos click, if_pos right] at reached
      obtain ⟨next, taken, rest⟩ := run_cons_ok_iff.mp reached
      cases rest
      refine ⟨fun unclicked => absurd click unclicked, fun _ left => absurd left (not_lt.mpr right), fun _ _ => ?_⟩
      rw [editorStep] at taken
      cases picked : paletteObject session (truncate ((input.mouse.y - 40) / 40)) with
      | none =>
        rw [picked] at taken
        exact (Except.ok.inj taken).symm
      | some object =>
        rw [picked] at taken
        exact (Except.ok.inj taken).symm
    · rw [mouseActions, if_pos click, if_neg right] at reached
      cases reached
      exact ⟨fun unclicked => absurd click unclicked, fun _ _ => rfl, fun _ beside => absurd beside right⟩
  · rw [mouseActions, if_neg click] at reached
    cases reached
    exact ⟨fun _ => rfl, fun clicked => absurd clicked click, fun clicked => absurd clicked click⟩

theorem paintCell_layout {session : EditorSession} {row col : Nat} (inRows : row < session.config.layout.rows)
    (inCols : col < session.config.layout.cols) :
    (paintCell session row col).currentTile = session.currentTile ∧
      ∀ i j, (paintCell session row col).config.layout.get? i j =
        if i = row ∧ j = col then some session.currentTile else session.config.layout.get? i j := by
  unfold paintCell
  dsimp only
  rw [if_pos ⟨by omega, by omega, by omega, by omega⟩]
  exact ⟨rfl, Grid.get?_set ⟨inRows, inCols⟩ session.currentTile⟩

theorem paintCell_tile (session : EditorSession) (row col : Int) :
    (paintCell session row col).currentTile = session.currentTile := by
  unfold paintCell
  dsimp only
  split <;> rfl

theorem moveView_inView {layout : MapLayout} (rows : layout.rows = editorMaxSize) (cols : layout.cols = editorMaxSize)
    (offset : Vector2 Rat) (input : EditorInput) :
    InView (moveView layout offset input).x gridAreaWidth layout.cols ∧
      InView (moveView layout offset input).y screenHeight layout.rows := by
  refine ⟨moveAxis_inView ?_ _ _ _ _, moveAxis_inView ?_ _ _ _ _⟩
  · rw [cols]
    decide
  · rw [rows]
    decide

theorem ShowsItem.picks {session : EditorSession} {place : Nat} {item : DrawnItem}
    (shows : ShowsItem textures session place item) {input : EditorInput} (click : input.click = true)
    (hit : CheckCollisionPointRec input.mouse item.box) :
    Picks input item := by
  obtain ⟨left, -, top, bottom⟩ := hit
  rw [shows.box] at left top bottom
  have left : (gridAreaWidth : Rat) + 5 ≤ input.mouse.x := not_lt.mp left
  have top : 40 + (place : Rat) * 40 ≤ input.mouse.y := not_lt.mp top
  have bottom : input.mouse.y < 40 + (place : Rat) * 40 + 35 := bottom
  refine ⟨click, by linarith, .inl ?_⟩
  rw [shows.box]
  exact ⟨top, by dsimp only; linarith⟩

theorem mouse_picks (textures : TextureManager) {session middle : EditorSession} (onPage : OnPage session)
    {offset : Vector2 Rat} {input : EditorInput}
    (reached : run editorStep session (mouseActions offset input) = .ok middle) :
    ∃ items, drawItems textures session = .ok items ∧
      (∀ item ∈ items, input.click = true → CheckCollisionPointRec input.mouse item.box → Picks input item) ∧
      (∀ item ∈ items, Picks input item → middle.currentTile = item.object.id) ∧
      ((∀ item ∈ items, ¬ Picks input item) → middle.currentTile = session.currentTile) := by
  obtain ⟨items, drawn, -, members⟩ := drawItems_total textures onPage
  obtain ⟨idle, painted, chosen⟩ := mouseActions_ok reached
  refine ⟨items, drawn, fun item member click hit => ?_, fun item member picks => ?_, fun unpicked => ?_⟩
  · obtain ⟨place, shows⟩ := (members item).mp member
    exact shows.picks click hit
  · rw [chosen picks.click picks.right, (paletteObject_drawn onPage drawn).mpr ⟨item, member, rfl, picks.band⟩]
  · by_cases click : input.click = true
    · rcases lt_or_ge input.mouse.x (gridAreaWidth : Rat) with left | right
      · rw [painted click left]
        exact paintCell_tile session _ _
      · rw [chosen click right]
        cases picked : paletteObject session (truncate ((input.mouse.y - 40) / 40)) with
        | none => rfl
        | some object =>
          obtain ⟨item, member, -, band⟩ := (paletteObject_drawn onPage drawn).mp picked
          exact absurd ⟨click, right, band⟩ (unpicked item member)
    · rw [idle click]

theorem mouse_leaves {session middle : EditorSession} {offset : Vector2 Rat} {input : EditorInput}
    (reached : run editorStep session (mouseActions offset input) = .ok middle)
    (elsewhere : ¬ (input.click = true ∧ input.mouse.x < gridAreaWidth)) :
    middle.config.layout = session.config.layout := by
  obtain ⟨idle, -, chosen⟩ := mouseActions_ok reached
  by_cases click : input.click = true
  · rw [chosen click (not_lt.mp fun left => elsewhere ⟨click, left⟩)]
    split <;> rfl
  · rw [idle click]

theorem editorFrame_matches {window : EditorWindow} (workable : Workable window.session) (input : EditorInput) :
    ∃ next, editorFrame window input = .ok next ∧ Workable next.session ∧ FrameMatches window input next := by
  set offset := moveView window.session.config.layout window.cameraOffset input with moved
  -- The session behind the mouse, and then behind the keys.
  obtain ⟨middle, clicked, kept⟩ := run_completes Workable (fun _ action holds => editorStep_workable holds action)
    workable (mouseActions offset input)
  obtain ⟨session, keyed, after⟩ := run_completes Workable (fun _ action holds => editorStep_workable holds action)
    kept (keyActions input)
  have reached : run editorStep window.session (mouseActions offset input ++ keyActions input) = .ok session := by
    rw [run_append, clicked]
    exact keyed
  obtain ⟨config, tile⟩ := keyActions_leave keyed
  obtain ⟨cells, drawn, members⟩ := drawCells_total window.textures session.config.layout offset
    (if input.g then !window.showGrid else window.showGrid)
  obtain ⟨items, listed, shown, -⟩ := drawItems_total window.textures after.onPage
  obtain ⟨across, down⟩ := moveView_inView workable.rows workable.cols window.cameraOffset input
  have height : window.session.config.layout.rows = session.config.layout.rows := workable.rows.trans after.rows.symm
  have width : window.session.config.layout.cols = session.config.layout.cols := workable.cols.trans after.cols.symm
  rw [width] at across
  rw [height] at down
  have shows (cell : DrawnCell) (member : cell ∈ cells) :
      ShowsCell window.textures session.config.layout offset cell := by
    obtain ⟨row, -, col, -, same⟩ := (members cell).mp member
    exact drawCell_shows same
  refine ⟨_, bind_ok_iff.mpr ⟨session, reached, bind_ok_iff.mpr ⟨cells, drawn, bind_ok_iff.mpr ⟨items, listed, rfl⟩⟩⟩,
    after, ?_⟩
  constructor
  case current => exact fun cell member => ⟨(shows cell member).id, (shows cell member).texture⟩
  case tiled =>
    intro point inside
    obtain ⟨cell, member, -, hits⟩ := drawnMap_tiled across down drawn inside
    exact ⟨cell, ⟨member, (hits cell member).mpr rfl⟩, fun other found => (hits other found.1).mp found.2⟩
  case pointed =>
    intro inside
    obtain ⟨cell, member, under, hits⟩ := drawnMap_tiled across down drawn inside
    obtain ⟨inRows, inCols⟩ := Grid.inside_of_get? (shows cell member).id
    refine ⟨cell, member, (hits cell member).mpr rfl, ?_, fun click => ?_⟩
    · rw [drawHighlight, under]
      dsimp only
      rw [if_pos ⟨inside.right, by omega, by omega, by omega, by omega⟩, (shows cell member).dest]
    · obtain ⟨-, painted, -⟩ := mouseActions_ok clicked
      have painted := painted click inside.right
      rw [under] at painted
      obtain ⟨-, cellwise⟩ := paintCell_layout (height ▸ inRows) (width ▸ inCols)
      -- The keys leave the map that the click painted, and the picture shows it.
      rw [← painted, ← config] at cellwise
      refine ⟨?_, cellwise⟩
      have here := (shows cell member).id
      rw [cellwise, if_pos ⟨rfl, rfl⟩] at here
      exact (Option.some.inj here).symm
  case unpainted =>
    intro elsewhere
    dsimp only
    rw [config]
    exact mouse_leaves clicked elsewhere
  case picked =>
    dsimp only
    rw [tile]
    exact mouse_picks window.textures workable.onPage clicked
  case page => exact ⟨listed, shown⟩

theorem opened_started {loads : Bytes → Bool} {listing : Option (List Bytes)} {file : MapFile}
    {session : EditorSession} (opened : openEditor loads listing file = .ok (some session)) :
    startSession loads session.config = .ok session ∧ session.config.layout.rows = editorMaxSize ∧
      session.config.layout.cols = editorMaxSize := by
  cases file with
  | absent =>
    obtain ⟨other, started, same⟩ := openEditor_absent_iff.mp opened
    cases same
    obtain ⟨-, first, -, rfl⟩ := startSession_ok_iff.mp started
    exact ⟨started, Grid.rows_ofFn _ _ _, rfl⟩
  | present parsed =>
    cases parsed with
    | none => cases opened
    | some json =>
      obtain ⟨stored, config, other, -, padded, started, same⟩ := openEditor_present_iff.mp opened
      cases same
      obtain ⟨-, first, -, rfl⟩ := startSession_ok_iff.mp started
      obtain ⟨expanded, filled, padded⟩ := bind_ok_iff.mp padded
      obtain ⟨objects, -, padded⟩ := bind_ok_iff.mp padded
      obtain ⟨palette, -, padded⟩ := bind_ok_iff.mp padded
      cases padded
      obtain ⟨_, _, _, -, height, width, -⟩ := expandLoaded_ok_iff.mp filled
      exact ⟨started, (Grid.rows_map _ _).trans height, (Grid.cols_map _ _).trans width⟩

theorem opened_workable {loads : Bytes → Bool} {listing : Option (List Bytes)} {file : MapFile}
    {session : EditorSession} (safe : EditorSafe loads listing file)
    (opened : openEditor loads listing file = .ok (some session)) :
    Workable session ∧ ∃ textures, initTextureManager loads session.config.objects = .ok textures := by
  obtain ⟨started, rows, cols⟩ := opened_started opened
  obtain ⟨other, again, runs⟩ := safe
  cases opened.symm.trans again
  -- A save before any other action already meets every cell of the file.
  obtain ⟨last, reached, saves, -⟩ := runs session rfl []
  cases reached
  have sound : InPalette session := by
    refine inPalette_of_started started ?_ ?_ fun r c id found => (saves.cells r c id found).1
    · rw [rows]
      decide
    · rw [cols]
      decide
  obtain ⟨range, first, head, same⟩ := startSession_ok_iff.mp started
  refine ⟨⟨sound, rows, cols, ?_⟩, (initTextureManager_ok_iff loads).mpr range⟩
  have page : session.palettePage = 0 := by rw [same]
  have nonempty : 0 < session.config.objects.length := List.length_pos_of_mem (List.mem_of_mem_head? head)
  refine ⟨page.ge, ?_⟩
  rw [page, totalPages, Int.lt_iff_add_one_le, Int.le_ediv_iff_mul_le (by decide), LevelConfig.countObjects]
  simp only [itemsPerPage]
  omega

theorem newMap_safe : SafeFile none .absent := show 4 + (pngNames none).length ≤ maxObjects by decide

theorem newMap_opens : ∃ session, openEditor (fun _ => true) none .absent = .ok (some session) ∧
    session.config = newLevel none ∧ session.palettePage = 0 := by
  obtain ⟨session, started⟩ := (newLevel_starts_iff (fun _ => true) none).mpr newMap_safe
  refine ⟨session, openEditor_absent_iff.mpr ⟨session, started, rfl⟩, ?_⟩
  obtain ⟨-, first, -, rfl⟩ := startSession_ok_iff.mp started
  exact ⟨rfl, rfl⟩

/-- Every frame of the editor completes and matches its picture, whatever the keys and the mouse do. -/
theorem editor_shows_what_it_edits {loads : Bytes → Bool} {listing : Option (List Bytes)} {file : MapFile}
    (safe : SafeFile listing file) {session : EditorSession}
    (opened : openEditor loads listing file = .ok (some session)) :
    ∃ textures, initTextureManager loads session.config.objects = .ok textures ∧
      ∀ inputs, ∃ window, run editorFrame (openWindow textures session) inputs = .ok window ∧
        ∀ input, ∃ next, editorFrame window input = .ok next ∧ FrameMatches window input next := by
  obtain ⟨workable, textures, loaded⟩ := opened_workable (editorSafe_of_safeFile loads safe) opened
  refine ⟨textures, loaded, fun inputs => ?_⟩
  have each (window : EditorWindow) (input : EditorInput) (holds : Workable window.session) :
      ∃ next, editorFrame window input = .ok next ∧ Workable next.session := by
    obtain ⟨next, taken, kept, -⟩ := editorFrame_matches holds input
    exact ⟨next, taken, kept⟩
  have begins : Workable (openWindow textures session).session := workable
  obtain ⟨window, reached, holds⟩ :=
    run_completes (fun (window : EditorWindow) => Workable window.session) each begins inputs
  refine ⟨window, reached, fun input => ?_⟩
  obtain ⟨next, taken, -, matched⟩ := editorFrame_matches holds input
  exact ⟨next, taken, matched⟩

def clickAt (x y : Rat) : EditorInput where
  right := false
  left := false
  down := false
  up := false
  frameTime := 1 / 60
  mouse := ⟨x, y⟩
  click := true
  a := false
  d := false
  s := false
  control := false
  g := false

/-- A click on the second entry of the palette, and one in the map: a player is painted. -/
theorem newMap_paints_player : ∃ session, openEditor (fun _ => true) none .absent = .ok (some session) ∧
    ∃ textures window next, run editorFrame (openWindow textures session) [clickAt 1100 97] = .ok window ∧
      editorFrame window (clickAt 410 250) = .ok next ∧ FrameMatches window (clickAt 410 250) next ∧
      ∃ cell ∈ next.picture.cells, cell.id = 1 := by
  obtain ⟨session, opened, config, page⟩ := newMap_opens
  obtain ⟨textures, -, runs⟩ := editor_shows_what_it_edits newMap_safe opened
  obtain ⟨window, reached, frames⟩ := runs [clickAt 1100 97]
  -- The first click chooses the player.
  obtain ⟨start, none, first⟩ := runs []
  cases none
  obtain ⟨chosen, clicked, matched⟩ := first (clickAt 1100 97)
  cases reached.symm.trans (run_cons_of_ok clicked [])
  obtain ⟨items, drawn, -, picks, -⟩ := matched.picked
  have onPage : OnPage session := by
    refine ⟨page.ge, ?_⟩
    rw [page, config]
    decide
  have shown : paletteObject session (truncate ((97 - 40) / 40)) = some playerObject := by
    have row : truncate ((97 - 40) / 40) = 1 := by decide +kernel
    rw [row, paletteObject, page, config]
    rfl
  obtain ⟨item, member, same, band⟩ := (paletteObject_drawn onPage drawn).mp shown
  have tile : window.session.currentTile = 1 := by
    rw [picks item member ⟨rfl, by decide +kernel, band⟩, same]
    rfl
  -- The second click paints.
  obtain ⟨next, taken, frame⟩ := frames (clickAt 410 250)
  obtain ⟨cell, there, -, -, painted⟩ := frame.pointed
    ⟨by decide +kernel, by decide +kernel, by decide +kernel, by decide +kernel⟩
  exact ⟨session, opened, textures, window, next, reached, taken, frame, cell, there, (painted rfl).1.trans tile⟩

end Trigger.Editor
