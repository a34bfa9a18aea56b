import Trigger.Foundation.Fallible
import Mathlib.Tactic.Common

/-! Rectangular grids stored by rows, and the smallest rectangle around marked cells.

The shape is part of the value: every row has the declared width, so a cell is
present exactly when its coordinates are in range.
-/

set_option autoImplicit false

namespace Trigger.Foundation

@[ext] structure Grid (α : Type) where
  cols : Nat
  data : List (List α)
  rectangular : ∀ row ∈ data, row.length = cols
  deriving DecidableEq

namespace Grid

variable {α β : Type}

def rows (grid : Grid α) : Nat := grid.data.length

def get? (grid : Grid α) (r c : Nat) : Option α := grid.data[r]?.bind fun row => row[c]?

theorem get?_isSome_iff (grid : Grid α) (r c : Nat) :
    (grid.get? r c).isSome ↔ r < grid.rows ∧ c < grid.cols := by
  rw [get?, rows]
  by_cases inside : r < grid.data.length
  · have width := grid.rectangular _ (List.getElem_mem inside)
    simp [inside, width]
  · simp [inside]

theorem exists_get?_iff (grid : Grid α) (r c : Nat) :
    (∃ value, grid.get? r c = some value) ↔ r < grid.rows ∧ c < grid.cols := by
  rw [← grid.get?_isSome_iff, Option.isSome_iff_exists]

theorem inside_of_get? {grid : Grid α} {r c : Nat} {value : α} (found : grid.get? r c = some value) :
    r < grid.rows ∧ c < grid.cols :=
  (grid.exists_get?_iff r c).mp ⟨value, found⟩

theorem get?_eq_none_iff (grid : Grid α) (r c : Nat) :
    grid.get? r c = none ↔ ¬ (r < grid.rows ∧ c < grid.cols) := by
  rw [← grid.get?_isSome_iff, Option.not_isSome_iff_eq_none]

theorem ext_get? {first second : Grid α} (rows : first.rows = second.rows)
    (cols : first.cols = second.cols)
    (cells : ∀ r c, r < first.rows → c < first.cols → first.get? r c = second.get? r c) :
    first = second := by
  refine Grid.ext cols (List.ext_getElem rows fun r left right => ?_)
  have leftWidth := first.rectangular _ (List.getElem_mem left)
  have rightWidth := second.rectangular _ (List.getElem_mem right)
  refine List.ext_getElem (by rw [leftWidth, rightWidth, cols]) fun c cl cr => ?_
  have same := cells r c left (leftWidth ▸ cl)
  simpa [get?, left, right, cl, cr] using same

def at? (grid : Grid α) (r c : Int) : Option α :=
  if 0 ≤ r ∧ 0 ≤ c then grid.get? r.toNat c.toNat else none

@[simp] theorem at?_natCast (grid : Grid α) (r c : Nat) : grid.at? r c = grid.get? r c := by
  simp [at?]

theorem at?_eq_some_iff {grid : Grid α} {r c : Int} {value : α} :
    grid.at? r c = some value ↔ 0 ≤ r ∧ 0 ≤ c ∧ grid.get? r.toNat c.toNat = some value := by
  unfold at?
  split
  · next inside => simp [inside]
  · next outside =>
    constructor
    · intro found; cases found
    · rintro ⟨above, right, _⟩
      exact absurd ⟨above, right⟩ outside

theorem mem_flatten_iff {grid : Grid α} {value : α} :
    value ∈ grid.data.flatten ↔ ∃ r c, grid.get? r c = some value := by
  rw [List.mem_flatten]
  simp only [List.mem_iff_getElem?, get?, Option.bind_eq_some_iff]
  constructor
  · rintro ⟨row, ⟨r, foundRow⟩, c, foundCell⟩
    exact ⟨r, c, row, foundRow, foundCell⟩
  · rintro ⟨r, c, row, foundRow, foundCell⟩
    exact ⟨row, ⟨r, foundRow⟩, c, foundCell⟩

def ofFn (rows cols : Nat) (cell : Nat → Nat → α) : Grid α where
  cols := cols
  data := (List.range rows).map fun r => (List.range cols).map (cell r)
  rectangular := by simp

@[simp] theorem rows_ofFn (rows cols : Nat) (cell : Nat → Nat → α) :
    (ofFn rows cols cell).rows = rows := by simp [ofFn, Grid.rows]

@[simp] theorem cols_ofFn (rows cols : Nat) (cell : Nat → Nat → α) :
    (ofFn rows cols cell).cols = cols := rfl

theorem get?_ofFn (rows cols : Nat) (cell : Nat → Nat → α) (r c : Nat) :
    (ofFn rows cols cell).get? r c = if r < rows ∧ c < cols then some (cell r c) else none := by
  by_cases inside : r < rows
  · by_cases within : c < cols <;> simp [ofFn, get?, inside, within]
  · simp [ofFn, get?, inside]

def map (f : α → β) (grid : Grid α) : Grid β where
  cols := grid.cols
  data := grid.data.map (List.map f)
  rectangular := by
    intro row member
    obtain ⟨source, present, rfl⟩ := List.mem_map.mp member
    simpa using grid.rectangular source present

@[simp] theorem rows_map (f : α → β) (grid : Grid α) : (grid.map f).rows = grid.rows := by
  simp [map, rows]

@[simp] theorem cols_map (f : α → β) (grid : Grid α) : (grid.map f).cols = grid.cols := rfl

@[simp] theorem get?_map (f : α → β) (grid : Grid α) (r c : Nat) :
    (grid.map f).get? r c = (grid.get? r c).map f := by
  simp only [map, get?, List.getElem?_map]
  cases grid.data[r]? <;> simp

def set (grid : Grid α) (r c : Nat) (value : α) : Grid α where
  cols := grid.cols
  data := grid.data.modify r fun row => row.set c value
  rectangular := by
    intro row member
    obtain ⟨i, found⟩ := List.mem_iff_getElem?.mp member
    rw [List.getElem?_modify] at found
    obtain ⟨source, present, rfl⟩ := Option.map_eq_some_iff.mp found
    have width := grid.rectangular source (List.mem_of_getElem? present)
    split
    · simpa using width
    · simpa using width

@[simp] theorem rows_set (grid : Grid α) (r c : Nat) (value : α) : (grid.set r c value).rows = grid.rows := by
  simp [set, rows]

@[simp] theorem cols_set (grid : Grid α) (r c : Nat) (value : α) : (grid.set r c value).cols = grid.cols := rfl

theorem get?_set_of_some {grid : Grid α} {r c i j : Nat} {value cell : α}
    (found : (grid.set r c value).get? i j = some cell) : cell = value ∨ grid.get? i j = some cell := by
  rw [get?, set] at found
  obtain ⟨row, foundRow, foundCell⟩ := Option.bind_eq_some_iff.mp found
  rw [List.getElem?_modify] at foundRow
  obtain ⟨source, present, rfl⟩ := Option.map_eq_some_iff.mp foundRow
  split at foundCell
  · rw [List.getElem?_set] at foundCell
    split at foundCell
    · split at foundCell
      · exact .inl (Option.some.inj foundCell).symm
      · cases foundCell
    · exact .inr (Option.bind_eq_some_iff.mpr ⟨source, present, foundCell⟩)
  · exact .inr (Option.bind_eq_some_iff.mpr ⟨source, present, foundCell⟩)

theorem get?_set {grid : Grid α} {r c : Nat} (inside : r < grid.rows ∧ c < grid.cols) (value : α) (i j : Nat) :
    (grid.set r c value).get? i j = if i = r ∧ j = c then some value else grid.get? i j := by
  have within : r < grid.data.length := inside.1
  have width := grid.rectangular _ (List.getElem_mem within)
  rw [get?, get?, set, List.getElem?_modify]
  by_cases row : r = i
  · subst row
    rw [List.getElem?_eq_getElem within]
    by_cases col : c = j
    · subst col
      simp [width, inside.2]
    · simp [col, Ne.symm col]
  · rw [if_neg fun same => row same.1.symm]
    cases grid.data[i]? <;> simp [row]

section
variable {Fault : Type}

theorem length_of_filled {rows cols : Nat} {cell : Nat → Nat → Except Fault α} {data : List (List α)}
    (filled : (List.range rows).mapM (fun r => (List.range cols).mapM (cell r)) = .ok data) :
    ∀ row ∈ data, row.length = cols := by
  intro row member
  obtain ⟨r, -, traversed⟩ := exists_of_mem_mapM filled member
  rw [length_of_mapM_ok traversed, List.length_range]

def tabulate (rows cols : Nat) (cell : Nat → Nat → Except Fault α) : Except Fault (Grid α) :=
  match filled : (List.range rows).mapM fun r => (List.range cols).mapM (cell r) with
  | .error fault => .error fault
  | .ok data => .ok ⟨cols, data, length_of_filled filled⟩

theorem tabulate_ok_iff {rows cols : Nat} {cell : Nat → Nat → Except Fault α} {grid : Grid α} :
    tabulate rows cols cell = .ok grid ↔ grid.rows = rows ∧ grid.cols = cols ∧
      ∀ r c, r < rows → c < cols → ∃ value, cell r c = .ok value ∧ grid.get? r c = some value := by
  have traversed : tabulate rows cols cell = .ok grid ↔ grid.cols = cols ∧
      (List.range rows).mapM (fun r => (List.range cols).mapM (cell r)) = .ok grid.data := by
    unfold tabulate
    split
    next fault filled => simp [filled]
    next data filled =>
      simp only [filled, Except.ok.injEq, Grid.ext_iff, eq_comm]
  simp only [traversed, mapM_range_ok_iff, get?]
  constructor
  · rintro ⟨width, height, lines⟩
    refine ⟨height, width, fun r c row col => ?_⟩
    obtain ⟨line, ⟨_, cells⟩, found⟩ := lines r row
    obtain ⟨value, computed, present⟩ := cells c col
    exact ⟨value, computed, by rw [found, Option.bind_some, present]⟩
  · rintro ⟨height, width, cells⟩
    refine ⟨width, height, fun r row => ?_⟩
    have inside : r < grid.data.length := Nat.lt_of_lt_of_eq row height.symm
    refine ⟨grid.data[r], ⟨?_, fun c col => ?_⟩, List.getElem?_eq_getElem inside⟩
    · rw [grid.rectangular _ (List.getElem_mem inside), width]
    · obtain ⟨value, computed, present⟩ := cells r c row col
      rw [List.getElem?_eq_getElem inside, Option.bind_some] at present
      exact ⟨value, computed, present⟩

theorem tabulate_succeeds {rows cols : Nat} {cell : Nat → Nat → Except Fault α}
    (each : ∀ r c, r < rows → c < cols → ∃ value, cell r c = .ok value) : ∃ grid, tabulate rows cols cell = .ok grid := by
  obtain ⟨data, filled⟩ := mapM_succeeds_iff.mpr fun r row =>
    mapM_succeeds_iff.mpr fun c col => each r c (List.mem_range.mp row) (List.mem_range.mp col)
  unfold tabulate
  split
  next fault failed => cases failed.symm.trans filled
  next => exact ⟨_, rfl⟩

end

def cells (grid : Grid α) : List (Nat × Nat × α) :=
  grid.data.zipIdx.flatMap fun row => row.1.zipIdx.map fun cell => (row.2, cell.2, cell.1)

theorem mem_cells {grid : Grid α} {r c : Nat} {value : α} :
    (r, c, value) ∈ grid.cells ↔ grid.get? r c = some value := by
  simp only [cells, List.mem_flatMap, List.mem_map, Prod.mk.injEq, Prod.exists,
    List.mem_zipIdx_iff_getElem?, get?, Option.bind_eq_some_iff]
  constructor
  · rintro ⟨row, _, found, _, _, present, rfl, rfl, rfl⟩
    exact ⟨row, found, present⟩
  · rintro ⟨row, found, present⟩
    exact ⟨row, r, found, value, c, present, rfl, rfl, rfl⟩

theorem exists_cell_of_at? {grid : Grid α} {i j : Int} {value : α} (found : grid.at? i j = some value) :
    ∃ r c : Nat, i = r ∧ j = c ∧ (r, c, value) ∈ grid.cells := by
  obtain ⟨row, column, stored⟩ := at?_eq_some_iff.mp found
  exact ⟨i.toNat, j.toNat, (Int.toNat_of_nonneg row).symm, (Int.toNat_of_nonneg column).symm, mem_cells.mpr stored⟩

theorem forall_mem_cells_iff {grid : Grid α} (holds : Int → Int → α → Prop) :
    (∀ cell ∈ grid.cells, holds cell.1 cell.2.1 cell.2.2) ↔ ∀ i j value, grid.at? i j = some value → holds i j value := by
  constructor
  · intro every i j value found
    obtain ⟨row, column, cell⟩ := at?_eq_some_iff.mp found
    have here := every (i.toNat, j.toNat, value) (mem_cells.mpr cell)
    rwa [Int.toNat_of_nonneg row, Int.toNat_of_nonneg column] at here
  · intro every cell member
    exact every _ _ _ ((at?_natCast ..).trans (mem_cells.mp member))

/-- The rectangle `top..bottom` × `left..right` contains every marked cell and
has a marked cell on each of its four sides. -/
structure Encloses (marked : Nat → Nat → Prop) (top bottom left right : Nat) : Prop where
  contains : ∀ r c, marked r c → top ≤ r ∧ r ≤ bottom ∧ left ≤ c ∧ c ≤ right
  onTop : ∃ c, marked top c
  onBottom : ∃ c, marked bottom c
  onLeft : ∃ r, marked r left
  onRight : ∃ r, marked r right

theorem Encloses.least {marked : Nat → Nat → Prop} {top bottom left right : Nat}
    (box : Encloses marked top bottom left right) {top' bottom' left' right' : Nat}
    (other : ∀ r c, marked r c → top' ≤ r ∧ r ≤ bottom' ∧ left' ≤ c ∧ c ≤ right') :
    top' ≤ top ∧ bottom ≤ bottom' ∧ left' ≤ left ∧ right ≤ right' := by
  obtain ⟨_, onTop⟩ := box.onTop
  obtain ⟨_, onBottom⟩ := box.onBottom
  obtain ⟨_, onLeft⟩ := box.onLeft
  obtain ⟨_, onRight⟩ := box.onRight
  exact ⟨(other _ _ onTop).1, (other _ _ onBottom).2.1, (other _ _ onLeft).2.2.1,
    (other _ _ onRight).2.2.2⟩

theorem Encloses.single (r c : Nat) : Encloses (fun i j => i = r ∧ j = c) r r c c where
  contains := by rintro _ _ ⟨rfl, rfl⟩; simp
  onTop := ⟨c, rfl, rfl⟩
  onBottom := ⟨c, rfl, rfl⟩
  onLeft := ⟨r, rfl, rfl⟩
  onRight := ⟨r, rfl, rfl⟩

/-- Marking one more cell stretches each side just far enough. -/
theorem Encloses.insert {marked : Nat → Nat → Prop} {top bottom left right : Nat}
    (box : Encloses marked top bottom left right) (r c : Nat) :
    Encloses (fun i j => marked i j ∨ (i = r ∧ j = c)) (min top r) (max bottom r)
      (min left c) (max right c) where
  contains := by
    rintro i j (old | ⟨rfl, rfl⟩)
    · have inside := box.contains i j old
      omega
    · omega
  onTop := by
    rcases Nat.le_total top r with first | second
    · rw [Nat.min_eq_left first]
      exact box.onTop.imp fun _ => .inl
    · rw [Nat.min_eq_right second]
      exact ⟨c, .inr ⟨rfl, rfl⟩⟩
  onBottom := by
    rcases Nat.le_total r bottom with first | second
    · rw [Nat.max_eq_left first]
      exact box.onBottom.imp fun _ => .inl
    · rw [Nat.max_eq_right second]
      exact ⟨c, .inr ⟨rfl, rfl⟩⟩
  onLeft := by
    rcases Nat.le_total left c with first | second
    · rw [Nat.min_eq_left first]
      exact box.onLeft.imp fun _ => .inl
    · rw [Nat.min_eq_right second]
      exact ⟨r, .inr ⟨rfl, rfl⟩⟩
  onRight := by
    rcases Nat.le_total c right with first | second
    · rw [Nat.max_eq_left first]
      exact box.onRight.imp fun _ => .inl
    · rw [Nat.max_eq_right second]
      exact ⟨r, .inr ⟨rfl, rfl⟩⟩

theorem Encloses.congr {marked other : Nat → Nat → Prop} {top bottom left right : Nat}
    (box : Encloses marked top bottom left right) (same : ∀ r c, marked r c ↔ other r c) :
    Encloses other top bottom left right := by
  have equal : marked = other := funext fun r => funext fun c => propext (same r c)
  exact equal ▸ box

theorem Encloses.unique {marked : Nat → Nat → Prop} {top bottom left right : Nat}
    (box : Encloses marked top bottom left right) {top' bottom' left' right' : Nat}
    (other : Encloses marked top' bottom' left' right') :
    top = top' ∧ bottom = bottom' ∧ left = left' ∧ right = right' := by
  have inside := box.least other.contains
  have outside := other.least box.contains
  omega

theorem Encloses.translate {marked other : Nat → Nat → Prop} {top bottom left right : Nat}
    (box : Encloses marked top bottom left right) {top' bottom' left' right' : Nat}
    (box' : Encloses other top' bottom' left' right') {dr dc : Int}
    (moved : ∀ r c, marked r c → ∃ i j : Nat, other i j ∧ (i : Int) = r + dr ∧ (j : Int) = c + dc)
    (back : ∀ i j, other i j → ∃ r c : Nat, marked r c ∧ (i : Int) = r + dr ∧ (j : Int) = c + dc) :
    (top' : Int) = top + dr ∧ (bottom' : Int) = bottom + dr ∧ (left' : Int) = left + dc ∧ (right' : Int) = right + dc := by
  have inside {r c : Nat} (mark : marked r c) :
      (top' : Int) ≤ r + dr ∧ r + dr ≤ bottom' ∧ (left' : Int) ≤ c + dc ∧ c + dc ≤ right' := by
    obtain ⟨i, j, there, row, column⟩ := moved r c mark
    have bounds := box'.contains i j there
    omega
  have outside {i j : Nat} (mark : other i j) :
      (top : Int) + dr ≤ i ∧ i ≤ bottom + dr ∧ (left : Int) + dc ≤ j ∧ j ≤ right + dc := by
    obtain ⟨r, c, here, row, column⟩ := back i j mark
    have bounds := box.contains r c here
    omega
  obtain ⟨_, onTop⟩ := box.onTop
  obtain ⟨_, onBottom⟩ := box.onBottom
  obtain ⟨_, onLeft⟩ := box.onLeft
  obtain ⟨_, onRight⟩ := box.onRight
  obtain ⟨_, onTop'⟩ := box'.onTop
  obtain ⟨_, onBottom'⟩ := box'.onBottom
  obtain ⟨_, onLeft'⟩ := box'.onLeft
  obtain ⟨_, onRight'⟩ := box'.onRight
  have first := inside onTop
  have second := inside onBottom
  have third := inside onLeft
  have fourth := inside onRight
  have first' := outside onTop'
  have second' := outside onBottom'
  have third' := outside onLeft'
  have fourth' := outside onRight'
  omega

end Grid

end Trigger.Foundation
