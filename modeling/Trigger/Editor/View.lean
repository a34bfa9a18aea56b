import Trigger.Editor.Window
import Trigger.Engine.Steps

/-! What the window of the editor shows: which cells of the map are drawn where, which items
the palette lists, and which of them lies under the mouse.
-/

set_option autoImplicit false

namespace Trigger.Editor
open Foundation Config Engine

theorem cellSize_eq : cellSize = 40 := by decide +kernel

theorem mem_between {first last k : Int} : k ∈ between first last ↔ first ≤ k ∧ k < last := by
  simp only [between, List.mem_map, List.mem_range]
  constructor
  · rintro ⟨n, bound, rfl⟩
    omega
  · intro inside
    exact ⟨(k - first).toNat, by omega, by omega⟩

structure InView (offset : Rat) (area : Int) (count : Nat) : Prop where
  low : 0 ≤ offset
  high : offset ≤ 40 * count - area
  fills : area ≤ 40 * (count : Int)

theorem moveAxis_inView {area : Int} {count : Nat} (fills : area ≤ 40 * (count : Int)) (offset : Rat)
    (forward back : Bool) (frameTime : Rat) :
    InView (moveAxis offset forward back frameTime (count * cellSize) area) area count := by
  have room : (0 : Rat) ≤ count * 40 - area := by
    have : (area : Rat) ≤ 40 * count := by exact_mod_cast fills
    linarith
  rw [cellSize_eq]
  unfold moveAxis
  rw [if_neg (not_lt.mpr room)]
  dsimp only
  generalize (if back = true then _ else _ : Rat) = moved
  refine ⟨?_, ?_, fills⟩ <;> split_ifs <;> linarith

theorem truncate_of_nonneg {q : Rat} (nonneg : 0 ≤ q) : truncate q = ⌊q⌋ := if_pos nonneg

theorem floor_square {q : Rat} {k : Int} : ⌊q / 40⌋ = k ↔ 40 * (k : Rat) ≤ q ∧ q < 40 * k + 40 := by
  rw [Int.floor_eq_iff, le_div_iff₀ (by norm_num), div_lt_iff₀ (by norm_num)]
  constructor <;> rintro ⟨low, high⟩ <;> constructor <;> linarith

/-- The cell under a point of the area is a cell of the map and drawn, and the point lies in
its square and in no other. -/
theorem seen_axis {offset point : Rat} {area : Int} {count : Nat} (inView : InView offset area count)
    (whole : 40 ∣ area) (low : 0 ≤ point) (high : point < area) :
    0 ≤ truncate ((point + offset) / cellSize) ∧ truncate ((point + offset) / cellSize) < count ∧
      truncate ((point + offset) / cellSize) ∈
        between (drawnRange offset area count).1 (drawnRange offset area count).2 ∧
      ∀ k : Int, (¬ point < k * cellSize - offset ∧ point < k * cellSize - offset + cellSize) ↔
        k = truncate ((point + offset) / cellSize) := by
  obtain ⟨cells, rfl⟩ := whole
  obtain ⟨start, limit, fills⟩ := inView
  push_cast at high limit
  have nonneg : 0 ≤ (point + offset) / 40 := div_nonneg (by linarith) (by norm_num)
  have across : ((40 * cells : Int) : Rat) / 40 = (cells : Int) := by push_cast; ring
  obtain ⟨k, under⟩ : ∃ k, ⌊(point + offset) / 40⌋ = k := ⟨_, rfl⟩
  obtain ⟨first, begins⟩ : ∃ first, ⌊offset / 40⌋ = first := ⟨_, rfl⟩
  obtain ⟨left, right⟩ := floor_square.mp under
  obtain ⟨leftmost, behind⟩ := floor_square.mp begins
  -- What the bounds say of whole cells.
  have zero : 0 ≤ k := under ▸ Int.floor_nonneg.mpr nonneg
  have last : k < count := by
    have : (40 : Rat) * k < 40 * count := by linarith
    have : (40 : Int) * k < 40 * count := by exact_mod_cast this
    omega
  have shown : first ≤ k := by
    have : (40 : Rat) * first < 40 * k + 40 := by linarith
    have : (40 : Int) * first < 40 * k + 40 := by exact_mod_cast this
    omega
  have within : k < first + cells + 2 := by
    have : (40 : Rat) * k < 40 * cells + (40 * first + 40) := by linarith
    have : (40 : Int) * k < 40 * cells + (40 * first + 40) := by exact_mod_cast this
    omega
  rw [drawnRange, cellSize_eq, truncate_of_nonneg nonneg, under,
    truncate_of_nonneg (div_nonneg start (by norm_num)), begins, across, truncate_intCast]
  -- The last index that is drawn leaves two squares more than the area holds.
  refine ⟨zero, last, ?_, fun other => ?_⟩
  · rw [mem_between]
    dsimp only
    split_ifs <;> omega
  · rw [← under, eq_comm, floor_square]
    constructor <;> rintro ⟨low, high⟩ <;> constructor <;> linarith

variable {textures : TextureManager}

theorem drawnRange_inside {offset : Rat} {area : Int} {count : Nat} {k : Int}
    (drawn : k ∈ between (drawnRange offset area count).1 (drawnRange offset area count).2) : 0 ≤ k ∧ k < count := by
  obtain ⟨low, high⟩ := mem_between.mp drawn
  unfold drawnRange at low high
  dsimp only at low high
  split_ifs at low high <;> omega

theorem drawCell_ok_iff {layout : MapLayout} {offset : Vector2 Rat} {showGrid : Bool} {row col : Int}
    {cell : DrawnCell} :
    drawCell textures layout offset showGrid row col = .ok cell ↔
      ∃ id, layout.at? row col = some id ∧
        cell = ⟨row.toNat, col.toNat, id, loadedTexture textures id, cellRect offset row col, showGrid⟩ := by
  unfold drawCell
  cases layout.at? row col with
  | none => simp
  | some id => simp [eq_comm]

structure ShowsCell (textures : TextureManager) (layout : MapLayout) (offset : Vector2 Rat) (cell : DrawnCell) :
    Prop where
  id : layout.get? cell.row cell.col = some cell.id
  texture : cell.texture = loadedTexture textures cell.id
  dest : cell.dest = cellRect offset cell.row cell.col

theorem drawCell_shows {layout : MapLayout} {offset : Vector2 Rat} {showGrid : Bool} {row col : Int} {cell : DrawnCell}
    (drawn : drawCell textures layout offset showGrid row col = .ok cell) : ShowsCell textures layout offset cell := by
  obtain ⟨id, found, rfl⟩ := drawCell_ok_iff.mp drawn
  obtain ⟨top, left, cell⟩ := Grid.at?_eq_some_iff.mp found
  refine ⟨cell, rfl, ?_⟩
  dsimp only
  rw [Int.toNat_of_nonneg top, Int.toNat_of_nonneg left]

theorem drawCells_total (textures : TextureManager) (layout : MapLayout) (offset : Vector2 Rat) (showGrid : Bool) :
    ∃ cells, drawCells textures layout offset showGrid = .ok cells ∧ ∀ cell, cell ∈ cells ↔
      ∃ row ∈ between (drawnRange offset.y screenHeight layout.rows).1 (drawnRange offset.y screenHeight layout.rows).2,
        ∃ col ∈ between (drawnRange offset.x gridAreaWidth layout.cols).1
            (drawnRange offset.x gridAreaWidth layout.cols).2,
          drawCell textures layout offset showGrid row col = .ok cell := by
  set rows := drawnRange offset.y screenHeight layout.rows
  set cols := drawnRange offset.x gridAreaWidth layout.cols
  have each (row : Int) (inRows : row ∈ between rows.1 rows.2) (col : Int) (inCols : col ∈ between cols.1 cols.2) :
      ∃ cell, drawCell textures layout offset showGrid row col = .ok cell := by
    obtain ⟨top, bottom⟩ := drawnRange_inside inRows
    obtain ⟨left, right⟩ := drawnRange_inside inCols
    obtain ⟨id, found⟩ := (layout.exists_get?_iff row.toNat col.toNat).mpr ⟨by omega, by omega⟩
    exact ⟨_, drawCell_ok_iff.mpr ⟨id, Grid.at?_eq_some_iff.mpr ⟨top, left, found⟩, rfl⟩⟩
  obtain ⟨drawn, traversed⟩ := mapM_succeeds_iff.mpr fun row inRows => mapM_succeeds_iff.mpr (each row inRows)
  refine ⟨drawn.flatten, bind_ok_iff.mpr ⟨drawn, traversed, rfl⟩, fun cell => ?_⟩
  rw [List.mem_flatten]
  constructor
  · rintro ⟨line, inDrawn, inLine⟩
    obtain ⟨row, inRows, found⟩ := (mem_mapM_ok_iff traversed).mp inDrawn
    obtain ⟨col, inCols, same⟩ := (mem_mapM_ok_iff found).mp inLine
    exact ⟨row, inRows, col, inCols, same⟩
  · rintro ⟨row, inRows, col, inCols, same⟩
    obtain ⟨line, found⟩ := mapM_succeeds_iff.mpr (each row inRows)
    exact ⟨line, (mem_mapM_ok_iff traversed).mpr ⟨row, inRows, found⟩, (mem_mapM_ok_iff found).mpr ⟨col, inCols, same⟩⟩

structure InMapArea (point : Vector2 Rat) : Prop where
  left : 0 ≤ point.x
  right : point.x < gridAreaWidth
  top : 0 ≤ point.y
  bottom : point.y < screenHeight

theorem drawnMap_tiled {layout : MapLayout} {offset : Vector2 Rat} {showGrid : Bool} {cells : List DrawnCell}
    (across : InView offset.x gridAreaWidth layout.cols) (down : InView offset.y screenHeight layout.rows)
    (drawn : drawCells textures layout offset showGrid = .ok cells) {point : Vector2 Rat} (inside : InMapArea point) :
    ∃ cell ∈ cells, cellUnder offset point = ((cell.row : Int), (cell.col : Int)) ∧
      ∀ other ∈ cells, CheckCollisionPointRec point other.dest ↔ other = cell := by
  obtain ⟨all, traversed, members⟩ := drawCells_total textures layout offset showGrid
  cases drawn.symm.trans traversed
  obtain ⟨left, right, inCols, columns⟩ := seen_axis across (by decide) inside.left inside.right
  obtain ⟨top, bottom, inRows, rows⟩ := seen_axis down (by decide) inside.top inside.bottom
  generalize col : truncate ((point.x + offset.x) / cellSize) = under at left right inCols columns
  generalize row : truncate ((point.y + offset.y) / cellSize) = level at top bottom inRows rows
  obtain ⟨id, found⟩ := (layout.exists_get?_iff level.toNat under.toNat).mpr ⟨by omega, by omega⟩
  have shown : drawCell textures layout offset showGrid level under = .ok _ :=
    drawCell_ok_iff.mpr ⟨id, Grid.at?_eq_some_iff.mpr ⟨top, left, found⟩, rfl⟩
  refine ⟨_, (members _).mpr ⟨level, inRows, under, inCols, shown⟩, ?_, fun other member => ?_⟩
  · rw [cellUnder, row, col, Int.toNat_of_nonneg top, Int.toNat_of_nonneg left]
  · obtain ⟨row, -, col, -, same⟩ := (members other).mp member
    have covers : CheckCollisionPointRec point (cellRect offset row col) ↔ col = under ∧ row = level := by
      rw [← columns, ← rows, CheckCollisionPointRec, and_assoc]
      rfl
    obtain ⟨value, cell, rfl⟩ := drawCell_ok_iff.mp same
    obtain ⟨above, beside, cell⟩ := Grid.at?_eq_some_iff.mp cell
    rw [covers]
    constructor
    · rintro ⟨rfl, rfl⟩
      cases found.symm.trans cell
      rfl
    · -- No index is negative, so the row and the column tell the square.
      intro same
      obtain ⟨height, width, -⟩ := DrawnCell.mk.inj same
      exact ⟨by omega, by omega⟩

structure OnPage (session : EditorSession) : Prop where
  low : 0 ≤ session.palettePage
  high : session.palettePage < totalPages session.config

structure ShowsItem (textures : TextureManager) (session : EditorSession) (place : Nat) (item : DrawnItem) : Prop where
  onPage : place < itemsPerPage
  object : session.config.objects[session.palettePage.toNat * itemsPerPage + place]? = some item.object
  texture : item.texture = loadedTexture textures item.object.id
  box : item.box = ⟨gridAreaWidth + 5, 40 + place * 40, paletteWidth - 10, 35⟩
  selected : item.selected = true ↔ item.object.id = session.currentTile

theorem OnPage.first {session : EditorSession} (onPage : OnPage session) :
    session.palettePage * itemsPerPage < session.config.countObjects := by
  have below := onPage.high
  rw [totalPages, Int.lt_iff_add_one_le, Int.le_ediv_iff_mul_le (by decide)] at below
  simp only [itemsPerPage] at below ⊢
  omega

theorem drawItem_ok_iff {session : EditorSession} (onPage : OnPage session) {i : Int} {item : DrawnItem} {place : Nat}
    (within : place < itemsPerPage) (same : i = session.palettePage * itemsPerPage + place) :
    drawItem textures session (session.palettePage * itemsPerPage) i = .ok item ↔
      ShowsItem textures session place item := by
  have low : 0 ≤ session.palettePage * itemsPerPage := Int.mul_nonneg onPage.low (by decide)
  have index : i.toNat = session.palettePage.toNat * itemsPerPage + place := by
    have := onPage.low
    simp only [itemsPerPage] at same ⊢
    omega
  have band : (i : Rat) - (session.palettePage * itemsPerPage : Int) = place := by
    rw [same]
    push_cast
    ring
  unfold drawItem
  rw [if_neg (by omega), index, band]
  constructor
  · intro drawn
    cases found : session.config.objects[session.palettePage.toNat * itemsPerPage + place]? with
    | none =>
      rw [found] at drawn
      cases drawn
    | some object =>
      rw [found] at drawn
      cases drawn
      exact ⟨within, found, rfl, rfl, decide_eq_true_iff⟩
  · rintro ⟨-, found, texture, box, selected⟩
    obtain ⟨object, drawn, dest, chosen⟩ := item
    have texture : drawn = loadedTexture textures object.id := texture
    rw [found, texture]
    cases box
    have : chosen = decide (object.id = session.currentTile) := by
      rw [Bool.eq_iff_iff, decide_eq_true_iff]
      exact selected
    rw [this]

theorem drawItems_total (textures : TextureManager) {session : EditorSession} (onPage : OnPage session) :
    ∃ items, drawItems textures session = .ok items ∧ items ≠ [] ∧
      ∀ item, item ∈ items ↔ ∃ place, ShowsItem textures session place item := by
  have first := onPage.first
  have low : 0 ≤ session.palettePage * itemsPerPage := Int.mul_nonneg onPage.low (by decide)
  set start := session.palettePage * itemsPerPage with begins
  set last : Int := if session.config.countObjects < start + itemsPerPage then (session.config.countObjects : Int)
    else start + itemsPerPage with ends
  have limits : last ≤ session.config.countObjects ∧ last ≤ start + itemsPerPage ∧ start < last := by
    rw [ends]
    simp only [itemsPerPage] at begins ⊢
    split_ifs <;> omega
  -- The places of the page that hold an object.
  have places {i : Int} : i ∈ between start last ↔ ∃ place : Nat, place < itemsPerPage ∧ i = start + place ∧
      ∃ object, session.config.objects[session.palettePage.toNat * itemsPerPage + place]? = some object := by
    rw [mem_between]
    have low := onPage.low
    have length : (session.config.objects.length : Int) = session.config.countObjects := rfl
    simp only [itemsPerPage] at begins ends limits ⊢
    constructor
    · rintro ⟨above, below⟩
      exact ⟨(i - start).toNat, by omega, by omega, _, List.getElem?_eq_getElem (by omega)⟩
    · rintro ⟨place, within, rfl, object, found⟩
      have inside := (List.getElem?_eq_some_iff.mp found).1
      rw [ends]
      split_ifs <;> omega
  have each (i : Int) (inPage : i ∈ between start last) : ∃ item, drawItem textures session start i = .ok item := by
    obtain ⟨place, within, same, object, found⟩ := places.mp inPage
    exact ⟨⟨object, loadedTexture textures object.id, _, decide (object.id = session.currentTile)⟩,
      (drawItem_ok_iff onPage within same).mpr ⟨within, found, rfl, rfl, decide_eq_true_iff⟩⟩
  obtain ⟨items, traversed⟩ := mapM_succeeds_iff.mpr each
  have members (item : DrawnItem) : item ∈ items ↔ ∃ place, ShowsItem textures session place item := by
    rw [mem_mapM_ok_iff traversed]
    constructor
    · rintro ⟨i, inPage, drawn⟩
      obtain ⟨place, within, same, -⟩ := places.mp inPage
      exact ⟨place, (drawItem_ok_iff onPage within same).mp drawn⟩
    · rintro ⟨place, shows⟩
      exact ⟨start + place, places.mpr ⟨place, shows.onPage, rfl, _, shows.object⟩,
        (drawItem_ok_iff onPage shows.onPage rfl).mpr shows⟩
  refine ⟨items, traversed, ?_, members⟩
  obtain ⟨item, drawn⟩ := each start (mem_between.mpr ⟨by omega, limits.2.2⟩)
  exact List.ne_nil_of_mem ((mem_mapM_ok_iff traversed).mpr ⟨start, mem_between.mpr ⟨by omega, limits.2.2⟩, drawn⟩)

/-- The heights of the window that count for an item: its own forty pixels, and for the first
item also the title above it. -/
def InBand (item : DrawnItem) (y : Rat) : Prop :=
  item.box.y ≤ y ∧ y < item.box.y + 40 ∨ item.box.y = 40 ∧ 0 < y ∧ y < 40

theorem truncate_row {y : Rat} {place : Nat} : truncate ((y - 40) / 40) = place ↔
    40 + (place : Rat) * 40 ≤ y ∧ y < 40 + (place : Rat) * 40 + 40 ∨ place = 0 ∧ 0 < y ∧ y < 40 := by
  have start : (0 : Rat) ≤ place := Nat.cast_nonneg place
  rcases le_or_gt 40 y with below | above
  · rw [truncate_of_nonneg (div_nonneg (by linarith) (by norm_num)), floor_square]
    push_cast
    constructor
    · rintro ⟨low, high⟩
      exact .inl ⟨by linarith, by linarith⟩
    · rintro (⟨low, high⟩ | ⟨-, -, high⟩)
      · exact ⟨by linarith, by linarith⟩
      · linarith
  · -- Above the first item the quotient is negative, and cut towards zero it is rounded up.
    have negative : ¬ 0 ≤ (y - 40) / 40 := by
      rw [not_le, div_lt_iff₀ (by norm_num)]
      linarith
    have cut : truncate ((y - 40) / 40) = ⌈(y - 40) / 40⌉ := if_neg negative
    rw [cut, Int.ceil_eq_iff, lt_div_iff₀ (by norm_num), div_le_iff₀ (by norm_num)]
    push_cast
    constructor
    · rintro ⟨low, high⟩
      have first : (place : Rat) < 1 := by linarith
      have zero : place = 0 := by
        have : place < 1 := by exact_mod_cast first
        omega
      subst zero
      exact .inr ⟨rfl, by push_cast at low; linarith, above⟩
    · rintro (⟨low, -⟩ | ⟨rfl, low, -⟩)
      · linarith
      · push_cast
        exact ⟨by linarith, by linarith⟩

theorem paletteObject_eq_some_iff {session : EditorSession} (onPage : OnPage session) {rowInPalette : Int}
    {object : ObjectConfig} : paletteObject session rowInPalette = some object ↔
      ∃ place : Nat, rowInPalette = place ∧ place < itemsPerPage ∧
        session.config.objects[session.palettePage.toNat * itemsPerPage + place]? = some object := by
  have low := onPage.low
  unfold paletteObject
  constructor
  · intro picked
    split_ifs at picked with inPage
    dsimp only at picked
    rw [if_pos (by simp only [itemsPerPage]; omega), show (session.palettePage * itemsPerPage + rowInPalette).toNat =
      session.palettePage.toNat * itemsPerPage + rowInPalette.toNat by simp only [itemsPerPage]; omega] at picked
    exact ⟨rowInPalette.toNat, by omega, by omega, picked⟩
  · rintro ⟨place, rfl, within, found⟩
    rw [if_pos ⟨by omega, by omega⟩]
    dsimp only
    rw [if_pos (by simp only [itemsPerPage]; omega), show (session.palettePage * itemsPerPage + place).toNat =
      session.palettePage.toNat * itemsPerPage + place by simp only [itemsPerPage]; omega]
    exact found

/-- A click picks the item in whose band it falls, and nothing where there is none. -/
theorem paletteObject_drawn {session : EditorSession} (onPage : OnPage session) {items : List DrawnItem}
    (drawn : drawItems textures session = .ok items) {y : Rat} {object : ObjectConfig} :
    paletteObject session (truncate ((y - 40) / 40)) = some object ↔
      ∃ item ∈ items, item.object = object ∧ InBand item y := by
  obtain ⟨all, traversed, -, members⟩ := drawItems_total textures onPage
  cases drawn.symm.trans traversed
  have band {place : Nat} {item : DrawnItem} (shows : ShowsItem textures session place item) :
      InBand item y ↔ truncate ((y - 40) / 40) = place := by
    rw [truncate_row, InBand, shows.box]
    have top : (40 : Rat) + place * 40 = 40 ↔ place = 0 := by
      rw [add_eq_left, mul_eq_zero, Nat.cast_eq_zero]
      norm_num
    rw [top]
  rw [paletteObject_eq_some_iff onPage]
  constructor
  · rintro ⟨place, under, within, found⟩
    have shows : ShowsItem textures session place
        ⟨object, loadedTexture textures object.id, _, decide (object.id = session.currentTile)⟩ :=
      ⟨within, found, rfl, rfl, decide_eq_true_iff⟩
    exact ⟨_, (members _).mpr ⟨place, shows⟩, rfl, (band shows).mpr under⟩
  · rintro ⟨item, member, rfl, inBand⟩
    obtain ⟨place, shows⟩ := (members item).mp member
    exact ⟨place, (band shows).mp inBand, shows.onPage, shows.object⟩

end Trigger.Editor
