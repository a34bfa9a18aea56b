import Trigger.Engine.Collision

/-! The two collision checks one by one: the cells each of them inspects, and where it
leaves a player that was clear of the map.

Positions are exact. A cell is positive when the check reacts to it: the solid cells
and the level ends.
-/

set_option autoImplicit false

namespace Trigger.Engine
open Foundation Config

def PositiveAt (map : MapLayout) (i j : Int) : Prop := ∃ value, map.at? i j = some value ∧ 0 < value

def EndAt (map : MapLayout) (i j : Int) : Prop := ∃ value, map.at? i j = some value ∧ contactOf value = .levelEnd

def Clear (map : MapLayout) (pos : Vector2 Rat) : Prop :=
  ∀ cell ∈ map.cells, 0 < cell.2.2 → ¬ Touches pos cell.1 cell.2.1

def EndFree (map : MapLayout) (pos : Vector2 Rat) : Prop :=
  ∀ cell ∈ map.cells, contactOf cell.2.2 = .levelEnd → ¬ Touches pos cell.1 cell.2.1

instance (map : MapLayout) (pos : Vector2 Rat) : Decidable (Clear map pos) :=
  inferInstanceAs (Decidable (∀ cell ∈ map.cells, _ → _))

instance (map : MapLayout) (pos : Vector2 Rat) : Decidable (EndFree map pos) :=
  inferInstanceAs (Decidable (∀ cell ∈ map.cells, _ → _))

theorem clear_iff {map : MapLayout} {pos : Vector2 Rat} :
    Clear map pos ↔ ∀ i j, PositiveAt map i j → ¬ Touches pos i j :=
  untouched_iff fun value => 0 < value

theorem endFree_iff {map : MapLayout} {pos : Vector2 Rat} :
    EndFree map pos ↔ ∀ i j, EndAt map i j → ¬ Touches pos i j :=
  untouched_iff fun value => contactOf value = .levelEnd

theorem contactOf_free_iff {value : Int} : contactOf value = .free ↔ ¬ 0 < value := by
  unfold contactOf
  split
  · rename_i positive
    split <;> simp [positive]
  · rename_i positive
    simp [positive]

theorem positiveAt_iff {map : MapLayout} {i j : Int} : PositiveAt map i j ↔ SolidAt map i j ∨ EndAt map i j := by
  have kinds (value : Int) : 0 < value ↔ contactOf value = .solid ∨ contactOf value = .levelEnd := by
    have free : contactOf value = .free ↔ ¬ 0 < value := contactOf_free_iff
    cases contact : contactOf value <;> simp_all
  constructor
  · rintro ⟨value, found, positive⟩
    rcases (kinds value).mp positive with solid | last
    · exact .inl ⟨value, found, solid⟩
    · exact .inr ⟨value, found, last⟩
  · rintro (⟨value, found, solid⟩ | ⟨value, found, last⟩)
    · exact ⟨value, found, (kinds value).mpr (.inl solid)⟩
    · exact ⟨value, found, (kinds value).mpr (.inr last)⟩

theorem Clear.solidFree {map : MapLayout} {pos : Vector2 Rat} (clear : Clear map pos) : SolidFree map pos :=
  solidFree_iff.mpr fun i j solid => clear_iff.mp clear i j (positiveAt_iff.mpr (.inl solid))

theorem clear_iff_solidFree {map : MapLayout} {pos : Vector2 Rat} (none : EndFree map pos) :
    Clear map pos ↔ SolidFree map pos := by
  constructor
  · exact Clear.solidFree
  · intro free
    rw [clear_iff]
    intro i j positive
    rcases positiveAt_iff.mp positive with solid | last
    · exact solidFree_iff.mp free i j solid
    · exact endFree_iff.mp none i j last

theorem contactAt_levelEnd_iff {map : MapLayout} {cell : Int × Int} :
    contactAt map cell = .levelEnd ↔ EndAt map cell.1 cell.2 := by
  unfold contactAt EndAt
  cases map.at? cell.1 cell.2 <;> simp

theorem InspectsTouched.at_end {map : MapLayout} {pos : Vector2 Rat} (inspects : InspectsTouched map pos)
    {i j : Int} (last : EndAt map i j) : (i, j) ∈ scannedCells pos ↔ Touches pos i j := by
  obtain ⟨value, found, _⟩ := last
  exact inspectsTouched_iff.mp inspects i j value found

theorem checkCollisionPl_ended {map : MapLayout} {axis : Axis} {player : Player Rat}
    (inspects : InspectsTouched map player.pos) :
    (checkCollisionPl map axis player).2 = true ↔ ∃ i j, EndAt map i j ∧ Touches player.pos i j := by
  simp only [checkCollisionPl, collideCells_snd, contactAt_levelEnd_iff]
  constructor
  · rintro ⟨⟨i, j⟩, member, last⟩
    exact ⟨i, j, last, (inspects.at_end last).mp member⟩
  · rintro ⟨i, j, last, touched⟩
    exact ⟨(i, j), (inspects.at_end last).mpr touched, last⟩

theorem checkCollisionPl_going {map : MapLayout} {axis : Axis} {player : Player Rat}
    (inspects : InspectsTouched map player.pos) (none : EndFree map player.pos) :
    (checkCollisionPl map axis player).2 = false := by
  rw [← Bool.not_eq_true, checkCollisionPl_ended inspects]
  rintro ⟨i, j, last, touched⟩
  exact endFree_iff.mp none i j last touched

/-- Division towards zero inspects the cells that are met, and the first one when the
interval ends less than a cell before it. -/
theorem cutRange_iff {width start k : Int} (positive : 0 < width) (range : 0 ≤ k) :
    start.tdiv 32 ≤ k ∧ k ≤ (start + width - 1).tdiv 32 ↔
      Meets 32 width start k ∨ k = 0 ∧ -30 - width ≤ start ∧ start ≤ -width := by
  have unit : Int.sign 32 = 1 := rfl
  have first : start.tdiv 32 ≤ k ↔ start < 32 * k + 32 := by
    rw [Int.tdiv_eq_ediv, unit]
    split <;> omega
  have last : k ≤ (start + width - 1).tdiv 32 ↔ 32 * k ≤ start + width - 1 ∨ k = 0 ∧ -32 < start + width - 1 := by
    rw [Int.tdiv_eq_ediv, unit]
    split <;> omega
  rw [first, last, Meets]
  omega

/-- The box is off the map on the left or above, and near enough for the cut bounds to
reach the cells of the first column or row. -/
def OffNear (map : MapLayout) (x y : Int) : Prop :=
  0 < map.rows ∧ 0 < map.cols ∧ -62 ≤ x ∧ x < 32 * map.cols ∧ -94 ≤ y ∧ y < 32 * map.rows ∧ (x ≤ -32 ∨ y ≤ -64)

instance (map : MapLayout) (x y : Int) : Decidable (OffNear map x y) := inferInstanceAs (Decidable (_ ∧ _))

theorem truncate_intCast (value : Int) : truncate (value : Rat) = value := by
  unfold truncate
  split
  · exact Int.floor_intCast value
  · exact Int.ceil_intCast value

theorem inspectsTouched_iff_near {map : MapLayout} {x y : Int} :
    InspectsTouched map ⟨x, y⟩ ↔ ¬ OffNear map x y := by
  have scanned {i j : Int} (row : 0 ≤ i) (column : 0 ≤ j) : (i, j) ∈ scannedCells (⟨x, y⟩ : Vector2 Rat) ↔
      (Meets 32 64 y i ∨ i = 0 ∧ -94 ≤ y ∧ y ≤ -64) ∧ (Meets 32 32 x j ∨ j = 0 ∧ -62 ≤ x ∧ x ≤ -32) := by
    rw [mem_scannedCells, truncate_intCast, truncate_intCast, cutRange_iff (by decide) row, cutRange_iff (by decide) column]
    rfl
  have touched {i j : Int} : Touches (⟨x, y⟩ : Vector2 Rat) i j ↔ Meets 32 64 y i ∧ Meets 32 32 x j := by
    rw [Touches, Int.floor_intCast, Int.floor_intCast]
  constructor
  · rintro inspects ⟨rows, cols, left, right, top, bottom, off⟩
    -- The cell of the map nearest to the upper left corner of the box.
    have inside : (max 0 (y / 32)).toNat < map.rows ∧ (max 0 (x / 32)).toNat < map.cols := by omega
    obtain ⟨value, found⟩ := (map.exists_get?_iff _ _).mpr inside
    have same := inspects _ (Grid.mem_cells.mpr found)
    rw [scanned (by omega) (by omega), touched] at same
    simp only [Meets] at same
    omega
  · rintro near ⟨i, j, value⟩ member
    have inside := Grid.inside_of_get? (Grid.mem_cells.mp member)
    rw [scanned (by omega) (by omega), touched]
    simp only [OffNear] at near
    simp only [Meets]
    omega

/-- The cells of the map that the check reads, in the order of its loops: it returns at the first
level end. -/
def inspectedCells (map : MapLayout) : List (Int × Int) → List (Int × Int)
  | [] => []
  | (i, j) :: rest =>
    match map.at? i j with
    | none => inspectedCells map rest
    | some value => if contactOf value = .levelEnd then [(i, j)] else (i, j) :: inspectedCells map rest

/-- Nothing else of the map decides what the check does. -/
theorem collideCells_inspectedCells (map : MapLayout) (axis : Axis) (cells : List (Int × Int)) (player : Player Rat) :
    collideCells map axis (inspectedCells map cells) player = collideCells map axis cells player := by
  induction cells generalizing player with
  | nil => rfl
  | cons cell rest ih =>
    obtain ⟨i, j⟩ := cell
    rw [inspectedCells]
    cases found : map.at? i j with
    | none => simp [collideCells, found, ih]
    | some value => cases contact : contactOf value <;> simp [collideCells, found, contact, ih]

def Before (cell other : Int × Int) : Prop := cell.1 < other.1 ∨ cell.1 = other.1 ∧ cell.2 < other.2

instance (cell other : Int × Int) : Decidable (Before cell other) := inferInstanceAs (Decidable (_ ∨ _))

theorem scannedCells_ordered (pos : Vector2 Rat) : (scannedCells pos).Pairwise Before := by
  have ascending (first last : Int) : (intRange first last).Pairwise (· < ·) := by
    rw [intRange, List.pairwise_map]
    exact List.pairwise_lt_range.imp fun less => by omega
  rw [scannedCells, List.pairwise_flatMap]
  constructor
  · intro i _
    rw [List.pairwise_map]
    exact (ascending _ _).imp fun less => .inr ⟨rfl, less⟩
  · refine (ascending _ _).imp fun less cell inRow other inLater => ?_
    obtain ⟨_, _, rfl⟩ := List.mem_map.mp inRow
    obtain ⟨_, _, rfl⟩ := List.mem_map.mp inLater
    exact .inl less

theorem mem_inspectedCells_iff {map : MapLayout} {cells : List (Int × Int)} (ordered : cells.Pairwise Before)
    {cell : Int × Int} : cell ∈ inspectedCells map cells ↔ cell ∈ cells ∧ (map.at? cell.1 cell.2).isSome ∧
      ∀ other ∈ cells, Before other cell → ¬ EndAt map other.1 other.2 := by
  -- The scan goes down the list; its order turns the cells already passed into those before the wanted one.
  induction cells with
  | nil => simp [inspectedCells]
  | cons head rest ih =>
    obtain ⟨later, ordered⟩ := List.pairwise_cons.mp ordered
    have unread : ¬ Before head head := by simp [Before]
    rw [inspectedCells, List.mem_cons, List.forall_mem_cons]
    cases found : map.at? head.1 head.2 with
    | none =>
      have goesOn : ¬ EndAt map head.1 head.2 := by simp [EndAt, found]
      have outside (same : cell = head) : ¬ (map.at? cell.1 cell.2).isSome := by simp [same, found]
      rw [ih ordered]
      constructor
      · exact fun ⟨member, inside, first⟩ => ⟨.inr member, inside, fun _ => goesOn, first⟩
      · exact fun ⟨member, inside, _, first⟩ => ⟨member.resolve_left (outside · inside), inside, first⟩
    | some value =>
      dsimp only
      by_cases last : contactOf value = .levelEnd
      · have atEnd : EndAt map head.1 head.2 := ⟨value, found, last⟩
        rw [if_pos last, List.mem_singleton]
        constructor
        · rintro rfl
          refine ⟨.inl rfl, by simp [found], fun again => absurd again unread, fun other member before => ?_⟩
          have after := later other member
          simp only [Before] at before after
          omega
        · rintro ⟨rfl | member, -, first, -⟩
          · rfl
          · exact absurd atEnd (first (later cell member))
      · have goesOn : ¬ EndAt map head.1 head.2 := by
          rintro ⟨_, found', last'⟩
          cases found.symm.trans found'
          exact last last'
        rw [if_neg last, List.mem_cons, ih ordered]
        constructor
        · rintro (rfl | ⟨member, inside, first⟩)
          · refine ⟨.inl rfl, by simp [found], fun _ => goesOn, fun other member before => ?_⟩
            have after := later other member
            simp only [Before] at before after
            omega
          · exact ⟨.inr member, inside, fun _ => goesOn, first⟩
        · rintro ⟨rfl | member, inside, -, first⟩
          · exact .inl rfl
          · exact .inr ⟨member, inside, first⟩

theorem exists_inspectedCell {map : MapLayout} {cells : List (Int × Int)}
    (some : ∃ cell ∈ cells, (map.at? cell.1 cell.2).isSome) :
    ∃ cell ∈ inspectedCells map cells, cell ∈ cells ∧ (map.at? cell.1 cell.2).isSome := by
  induction cells with
  | nil => simp at some
  | cons head rest ih =>
    rw [inspectedCells]
    cases found : map.at? head.1 head.2 with
    | none =>
      obtain ⟨cell, read, member, inside⟩ := ih (by simpa [found] using some)
      exact ⟨cell, read, List.mem_cons_of_mem _ member, inside⟩
    | some value =>
      refine ⟨head, ?_, List.mem_cons_self .., by simp [found]⟩
      dsimp only
      split <;> exact List.mem_cons_self ..

/-- A solid cell that is read, or one before it, stops the player. -/
theorem firstSolid_of_inspected {map : MapLayout} {cells : List (Int × Int)} {cell : Int × Int}
    (read : cell ∈ inspectedCells map cells) (solid : SolidAt map cell.1 cell.2) :
    ∃ first, firstSolid map cells = some first := by
  induction cells with
  | nil => cases read
  | cons head rest ih =>
    rw [inspectedCells] at read
    cases found : map.at? head.1 head.2 with
    | none =>
      rw [found] at read
      simpa [firstSolid, contactAt, found] using ih read
    | some value =>
      rw [found] at read
      have here : contactAt map head = contactOf value := by simp [contactAt, found]
      cases contact : contactOf value with
      | solid => exact ⟨head, by simp [firstSolid, here, contact]⟩
      | levelEnd =>
        have same : cell = head := by simpa [contact] using read
        obtain ⟨_, found', solid'⟩ := solid
        rw [same] at found'
        cases found.symm.trans found'
        cases contact.symm.trans solid'
      | free =>
        have apart : cell ≠ head := by
          rintro rfl
          obtain ⟨_, found', solid'⟩ := solid
          cases found.symm.trans found'
          cases contact.symm.trans solid'
        have behind : cell ∈ inspectedCells map rest := by simpa [contact, apart] using read
        simpa [firstSolid, here, contact] using ih behind

theorem firstSolid_solidAt {map : MapLayout} {cells : List (Int × Int)} {first : Int × Int}
    (stops : firstSolid map cells = some first) : first ∈ cells ∧ SolidAt map first.1 first.2 := by
  obtain ⟨found, solid⟩ := Option.filter_eq_some_iff.mp stops
  refine ⟨List.mem_of_find?_eq_some found, ?_⟩
  have contact : contactAt map first = .solid := of_decide_eq_true solid
  unfold contactAt at contact
  cases stored : map.at? first.1 first.2 with
  | none => rw [stored] at contact; cases contact
  | some value =>
    rw [stored] at contact
    exact ⟨value, stored, contact⟩

/-- At this place the check reads the touched cells of the map only, and all of them: it ends
the level for a touched level end, and what moves the player is a touched solid cell. -/
structure HeedsTouched (map : MapLayout) (pos : Vector2 Rat) : Prop where
  inspects : ∀ cell ∈ map.cells,
    ((cell.1 : Int), (cell.2.1 : Int)) ∈ inspectedCells map (scannedCells pos) ↔ Touches pos cell.1 cell.2.1
  ends : ∀ axis player, player.pos = pos →
    ((checkCollisionPl map axis player).2 = true ↔ ∃ i j, EndAt map i j ∧ Touches pos i j)
  moves : ∀ axis player, player.pos = pos → (checkCollisionPl map axis player).1 ≠ player →
    ∃ i j, SolidAt map i j ∧ Touches pos i j ∧ (checkCollisionPl map axis player).1 = player.hitCell axis i j
  misses : ∀ axis player, player.pos = pos → ¬ SolidFree map pos →
    ∃ i j, SolidAt map i j ∧ Touches pos i j ∧ (checkCollisionPl map axis player).1 = player.hitCell axis i j

/-- The box touches a level end and, later in the order of the loops, another cell of the map. -/
def EndFollowed (map : MapLayout) (pos : Vector2 Rat) : Prop :=
  ∃ last ∈ map.cells, contactOf last.2.2 = .levelEnd ∧ Touches pos last.1 last.2.1 ∧
    ∃ cell ∈ map.cells, Touches pos cell.1 cell.2.1 ∧ Before (last.1, last.2.1) (cell.1, cell.2.1)

/-- Where the loops range over the touched cells, they are all read unless a level end cuts them short. -/
theorem InspectsTouched.inspected_iff {map : MapLayout} {pos : Vector2 Rat} (inspects : InspectsTouched map pos) :
    (∀ cell ∈ map.cells, ((cell.1 : Int), (cell.2.1 : Int)) ∈ inspectedCells map (scannedCells pos) ↔
      Touches pos cell.1 cell.2.1) ↔ ¬ EndFollowed map pos := by
  have stored {cell : Nat × Nat × Int} (member : cell ∈ map.cells) : map.at? cell.1 cell.2.1 = some cell.2.2 :=
    (Grid.at?_natCast ..).trans (Grid.mem_cells.mp member)
  have readable := @mem_inspectedCells_iff map _ (scannedCells_ordered pos)
  constructor
  · rintro reads ⟨last, lastIn, atEnd, lastTouched, cell, cellIn, touched, before⟩
    obtain ⟨-, -, first⟩ := readable.mp ((reads cell cellIn).mpr touched)
    exact first _ ((inspects last lastIn).mpr lastTouched) before ⟨_, stored lastIn, atEnd⟩
  · intro none cell member
    rw [readable]
    constructor
    · exact fun ⟨scanned, _, _⟩ => (inspects cell member).mp scanned
    · intro touched
      refine ⟨(inspects cell member).mpr touched, by simp [stored member], fun other scanned before atEnd => ?_⟩
      obtain ⟨value, found, last⟩ := id atEnd
      obtain ⟨i, j, row, column, inside⟩ := Grid.exists_cell_of_at? found
      obtain ⟨_, _⟩ := other
      cases row
      cases column
      exact none ⟨(i, j, value), inside, last, (inspects.at_end atEnd).mp scanned, cell, member,
        touched, before⟩

theorem InspectsTouched.heeds {map : MapLayout} {pos : Vector2 Rat} (inspects : InspectsTouched map pos)
    (none : ¬ EndFollowed map pos) : HeedsTouched map pos := by
  have reads := inspects.inspected_iff.mpr none
  refine ⟨reads, ?_, ?_, ?_⟩
  · rintro axis player rfl
    exact checkCollisionPl_ended inspects
  · rintro axis player rfl moved
    rcases collideCells_moves map axis (scannedCells player.pos) player with same | ⟨⟨i, j⟩, member, solid, same⟩
    · exact absurd same moved
    · exact ⟨i, j, solid, (inspects.at_solid solid).mp member, same⟩
  · rintro axis player rfl blocked
    obtain ⟨i, j, solid, touched⟩ := exists_touched blocked
    obtain ⟨value, found, _⟩ := id solid
    have read := (Grid.forall_mem_cells_iff fun i j _ => (i, j) ∈ inspectedCells map (scannedCells player.pos) ↔
      Touches player.pos i j).mp reads i j value found
    obtain ⟨first, stops⟩ := firstSolid_of_inspected (read.mpr touched) solid
    obtain ⟨member, firstIs⟩ := firstSolid_solidAt stops
    refine ⟨first.1, first.2, firstIs, (inspects.at_solid firstIs).mp member, ?_⟩
    rw [checkCollisionPl, collideCells_fst (lt_irrefl _), stops, Option.elim_some]

theorem OffNear.reads_untouched {map : MapLayout} {x y : Int} (near : OffNear map x y) :
    ¬ ∀ cell ∈ map.cells, ((cell.1 : Int), (cell.2.1 : Int)) ∈ inspectedCells map (scannedCells (⟨x, y⟩ : Vector2 Rat)) ↔
      Touches (⟨x, y⟩ : Vector2 Rat) cell.1 cell.2.1 := by
  intro reads
  have untouched {i j : Nat} : ¬ Touches (⟨x, y⟩ : Vector2 Rat) i j := by
    rw [Touches, Int.floor_intCast, Int.floor_intCast]
    simp only [OffNear] at near
    simp only [Meets]
    omega
  have ranges : ¬ InspectsTouched map ⟨x, y⟩ := fun inspects => inspectsTouched_iff_near.mp inspects near
  have scanned : ∃ cell ∈ scannedCells (⟨x, y⟩ : Vector2 Rat), (map.at? cell.1 cell.2).isSome := by
    by_contra none
    refine ranges fun cell member => iff_of_false (fun scans => none ⟨_, scans, ?_⟩) untouched
    rw [Grid.at?_natCast, Grid.mem_cells.mp member]
    rfl
  obtain ⟨⟨i, j⟩, read, -, inside⟩ := exists_inspectedCell scanned
  obtain ⟨value, found⟩ := Option.isSome_iff_exists.mp inside
  obtain ⟨r, c, row, column, stored⟩ := Grid.exists_cell_of_at? found
  cases row
  cases column
  exact untouched ((reads (r, c, value) stored).mp read)

/-- The check heeds the touched cells exactly when the box is not off the map on the left or
above within reach of the cut bounds, and no touched level end comes before another touched cell. -/
theorem heedsTouched_iff (map : MapLayout) (x y : Int) :
    HeedsTouched map ⟨x, y⟩ ↔ ¬ OffNear map x y ∧ ¬ EndFollowed map ⟨x, y⟩ := by
  constructor
  · intro heeds
    have near : ¬ OffNear map x y := fun near => near.reads_untouched heeds.inspects
    exact ⟨near, (inspectsTouched_iff_near.mpr near).inspected_iff.mp heeds.inspects⟩
  · rintro ⟨near, none⟩
    exact (inspectsTouched_iff_near.mpr near).heeds none

/-- Eight pixels to the left of the map the player ends the level by a cell it does not touch. -/
theorem leftOfEnd_not_heedsTouched :
    (checkCollisionPl (⟨1, [[3]], by decide⟩ : MapLayout) .horizontal (createPlayer (⟨-40, 0⟩ : Vector2 Rat) 1)).2 = true ∧
      ¬ Touches (⟨-40, 0⟩ : Vector2 Rat) 0 0 ∧ ¬ HeedsTouched ⟨1, [[3]], by decide⟩ ⟨-40, 0⟩ := by
  refine ⟨by decide +kernel, by decide +kernel, fun heeds => ?_⟩
  have same := heeds.inspects (0, 0, 3) (by decide)
  revert same
  decide +kernel

section
variable {a d : Rat} {width cell : Int}

theorem border_ahead (ahead : 0 < d) (met : Meets 32 width ⌊a + d⌋ cell) (apart : ¬ Meets 32 width ⌊a⌋ cell) :
    (⌊a⌋ : Rat) ≤ ((32 * cell - width : Int) : Rat) ∧ ((32 * cell - width : Int) : Rat) ≤ a + d := by
  have start : ⌊a⌋ ≤ ⌊a + d⌋ := Int.floor_le_floor (le_add_of_nonneg_right ahead.le)
  have beyond := met.ahead apart start
  have inside := met.2
  constructor
  · exact Int.cast_le.mpr (by omega)
  · exact Int.le_floor.mp (by omega)

theorem border_behind (back : d < 0) (met : Meets 32 width ⌊a + d⌋ cell) (apart : ¬ Meets 32 width ⌊a⌋ cell) :
    a + d ≤ ((32 * cell + 32 : Int) : Rat) ∧ ((32 * cell + 32 : Int) : Rat) ≤ (⌊a⌋ : Rat) := by
  have start : ⌊a + d⌋ ≤ ⌊a⌋ := Int.floor_le_floor (by linarith)
  have beyond := met.behind apart start
  constructor
  · exact (Int.floor_lt.mp met.1).le
  · exact Int.cast_le.mpr beyond

end

section
variable {map : MapLayout} {pos : Vector2 Rat} {d : Rat}

theorem slideY_between (free : SolidFree map pos) (slow : -31 ≤ d ∧ d ≤ 31) :
    min (⌊pos.y⌋ : Rat) (pos.y + d) ≤ (slideY map pos d).y ∧ (slideY map pos d).y ≤ max (⌊pos.y⌋ : Rat) (pos.y + d) := by
  by_cases clear : SolidFree map (pos.down d)
  · rw [slideY, if_pos clear]
    exact ⟨min_le_right _ _, le_max_right _ _⟩
  · obtain ⟨i, j, solid, touched⟩ := exists_touched clear
    have apart : ¬ Meets 32 64 ⌊pos.y⌋ i := fun met => solidFree_iff.mp free i j solid ⟨met, touched.2⟩
    rcases slideY_stop free slow solid touched with ⟨down, stops⟩ | ⟨up, stops⟩
    · obtain ⟨above, below⟩ := border_ahead down touched.1 apart
      rw [stops]
      exact ⟨min_le_of_left_le above, le_max_of_le_right below⟩
    · obtain ⟨above, below⟩ := border_behind up touched.1 apart
      rw [stops]
      exact ⟨min_le_of_right_le above, le_max_of_le_left below⟩

theorem slideY_clear (clear : Clear map pos) (slow : -31 ≤ d ∧ d ≤ 31) (going : EndFree map (pos.down d)) :
    Clear map (slideY map pos d) := by
  by_cases free : SolidFree map (pos.down d)
  · rw [slideY, if_pos free]
    exact (clear_iff_solidFree going).mpr free
  · rw [clear_iff]
    intro i j positive touched
    exact clear_iff.mp clear i j positive (slideY_touches clear.solidFree slow free touched)

end

def BlockingRow (map : MapLayout) (pos : Vector2 Rat) (i : Int) : Prop :=
  (∃ j, PositiveAt map i j ∧ Touches pos i j) ∧ ∀ i' j', PositiveAt map i' j' → Touches pos i' j' → i' = i

theorem stop_unique {d ends : Rat} {width k k' : Int}
    (stop : 0 < d ∧ ends = ((32 * k - width : Int) : Rat) ∨ d < 0 ∧ ends = ((32 * k + 32 : Int) : Rat))
    (other : 0 < d ∧ ends = ((32 * k' - width : Int) : Rat) ∨ d < 0 ∧ ends = ((32 * k' + 32 : Int) : Rat)) : k' = k := by
  rcases stop with ⟨ahead, same⟩ | ⟨back, same⟩
  · rcases other with ⟨_, border⟩ | ⟨away, _⟩
    · have equal : 32 * k' - width = 32 * k - width := Int.cast_injective (border.symm.trans same)
      omega
    · exact absurd away (lt_asymm ahead)
  · rcases other with ⟨away, _⟩ | ⟨_, border⟩
    · exact absurd away (lt_asymm back)
    · have equal : 32 * k' + 32 = 32 * k + 32 := Int.cast_injective (border.symm.trans same)
      omega

theorem stop_flush {d ends : Rat} {width k : Int}
    (stop : 0 < d ∧ ends = ((32 * k - width : Int) : Rat) ∨ d < 0 ∧ ends = ((32 * k + 32 : Int) : Rat)) :
    0 < d ∧ ends + width = 32 * k ∨ d < 0 ∧ ends = 32 * k + 32 := by
  rcases stop with ⟨ahead, same⟩ | ⟨back, same⟩
  · refine .inl ⟨ahead, ?_⟩
    rw [same]
    push_cast
    ring
  · refine .inr ⟨back, ?_⟩
    rw [same]
    push_cast
    ring

section
variable {map : MapLayout} {player : Player Rat}

end

def wallAhead : MapLayout := ⟨3, [[0, 0, 4], [0, 0, 4], [4, 4, 4]], by decide⟩

def movingPlayer (y vx vy : Rat) : Player Rat := { createPlayer ⟨30, y⟩ 1 with velocity := ⟨vx, vy⟩ }

/-- What the vertical move and its check make of a player clear of the map: it stops on
top of the row in the way when it moves down, below it when it moves up. -/
structure SafeUpright (map : MapLayout) (player after : Player Rat) : Prop where
  clear : Clear map after.pos
  between : min (⌊player.pos.y⌋ : Rat) (player.pos.y + (player.velocity.y + 1)) ≤ after.pos.y ∧
    after.pos.y ≤ max (⌊player.pos.y⌋ : Rat) (player.pos.y + (player.velocity.y + 1))
  flush : ¬ Clear map player.moveY.pos → ∃ i, BlockingRow map player.moveY.pos i ∧
    (0 < player.velocity.y + 1 ∧ after.pos.y + 64 = 32 * i ∨ player.velocity.y + 1 < 0 ∧ after.pos.y = 32 * i + 32)

section
variable {map : MapLayout} {player : Player Rat}

theorem blockedUpright (clear : Clear map player.pos)
    (slow : -31 ≤ player.velocity.y + 1 ∧ player.velocity.y + 1 ≤ 31) (going : EndFree map player.moveY.pos)
    (blocked : ¬ Clear map player.moveY.pos) :
    ∃ i, BlockingRow map player.moveY.pos i ∧
      (0 < player.velocity.y + 1 ∧
          slideY map player.pos (player.velocity.y + 1) = { player.pos with y := ((32 * i - 64 : Int) : Rat) } ∨
        player.velocity.y + 1 < 0 ∧
          slideY map player.pos (player.velocity.y + 1) = { player.pos with y := ((32 * i + 32 : Int) : Rat) }) := by
  rw [clear_iff_solidFree going] at blocked
  obtain ⟨i, j, solid, touched⟩ := exists_touched blocked
  have stop := slideY_stop clear.solidFree slow solid touched
  refine ⟨i, ⟨⟨j, positiveAt_iff.mpr (.inl solid), touched⟩, ?_⟩, stop⟩
  intro i' j' positive touched'
  rcases positiveAt_iff.mp positive with solid' | last
  · have stop' := slideY_stop clear.solidFree slow solid' touched'
    exact stop_unique (stop.imp (And.imp_right (congrArg Vector2.y)) (And.imp_right (congrArg Vector2.y)))
      (stop'.imp (And.imp_right (congrArg Vector2.y)) (And.imp_right (congrArg Vector2.y)))
  · exact absurd touched' (endFree_iff.mp going i' j' last)

/-- A player that sinks while its velocity is not positive, into cells in the way, stays
among them or is set behind them. -/
theorem sinking_unsafe (inspects : InspectsTouched map player.moveY.pos)
    (sinking : -1 < player.velocity.y) (rising : player.velocity.y ≤ 0) (going : EndFree map player.moveY.pos)
    (blocked : ¬ Clear map player.moveY.pos) :
    ¬ SafeUpright map player (checkCollisionPl map .vertical player.moveY).1 := by
  intro safe
  rcases checkCollisionPl_cases inspects (checkCollisionPl_going inspects going) with ⟨_, free⟩ | ⟨i, j, _, touched, same⟩
  · exact blocked ((clear_iff_solidFree going).mpr free)
  · rcases rising.lt_or_eq with up | zero
    · have above : ⌊player.pos.y + (player.velocity.y + 1)⌋ < 32 * i + 32 := touched.1.1
      have target : player.pos.y + (player.velocity.y + 1) < ((32 * i + 32 : Int) : Rat) := Int.floor_lt.mp above
      have start : ((⌊player.pos.y⌋ : Int) : Rat) ≤ player.pos.y := Int.floor_le _
      have bound := safe.between.2
      rw [same, hitCell_top player.moveY up, mul_comm] at bound
      rcases le_max_iff.mp bound with near | near
      · have crossed : ((32 * i + 32 : Int) : Rat) ≤ ((⌊player.pos.y⌋ : Int) : Rat) := near
        linarith
      · have crossed : ((32 * i + 32 : Int) : Rat) ≤ player.pos.y + (player.velocity.y + 1) := near
        linarith
    · have still : player.moveY.speed .vertical = 0 := zero
      have stuck := safe.clear
      rw [same, hitCell_still still] at stuck
      exact blocked stuck

/-- The vertical step is safe exactly when no positive cell is at its target while the
player sinks with a velocity that is not positive. -/
theorem verticalStep_safe_iff {x : Int} (place : player.pos.x = x) (inside : 0 ≤ x) (below : 0 ≤ player.pos.y)
    (slow : -29 / 5 ≤ player.velocity.y ∧ player.velocity.y ≤ 2) (clear : Clear map player.pos)
    (going : EndFree map player.moveY.pos) :
    SafeUpright map player (checkCollisionPl map .vertical player.moveY).1 ↔
      (-1 < player.velocity.y → player.velocity.y ≤ 0 → Clear map player.moveY.pos) := by
  have left : 0 ≤ player.pos.x := by
    rw [place]
    exact_mod_cast inside
  have reach : -31 ≤ player.velocity.y + 1 ∧ player.velocity.y + 1 ≤ 31 := ⟨by linarith, by linarith⟩
  have one : (ofInt 1 : Rat) = 1 := rfl
  have inspects : InspectsTouched map player.moveY.pos :=
    inspectsTouched_of_near map (by simp only [Player.moveY]; linarith) (by simp only [Player.moveY, one]; linarith)
  constructor
  · intro safe sinking rising
    by_contra blocked
    exact sinking_unsafe inspects sinking rising going blocked safe
  · intro landing
    have stops := vertical_stops clear.solidFree reach inspects (fun sinking rising => (landing sinking rising).solidFree)
      (checkCollisionPl_going inspects going)
    constructor
    · rw [stops]
      exact slideY_clear clear reach going
    · rw [stops]
      exact slideY_between clear.solidFree reach
    · intro blocked
      obtain ⟨i, row, ends⟩ := blockedUpright clear reach going blocked
      rw [← stops] at ends
      exact ⟨i, row, by simpa using stop_flush (ends.imp (And.imp_right (congrArg Vector2.y))
        (And.imp_right (congrArg Vector2.y)))⟩

end

/-- A fast fall ends on top of the floor. -/
theorem fallOnFloor_safe :
    ¬ Clear wallAhead (movingPlayer (3 / 5) 0 2).moveY.pos ∧ SafeUpright wallAhead (movingPlayer (3 / 5) 0 2)
      (checkCollisionPl wallAhead .vertical (movingPlayer (3 / 5) 0 2).moveY).1 := by
  constructor
  · decide +kernel
  · have clear : Clear wallAhead (movingPlayer (3 / 5) 0 2).pos := by decide +kernel
    have going : EndFree wallAhead (movingPlayer (3 / 5) 0 2).moveY.pos := by decide +kernel
    have place : (movingPlayer (3 / 5) 0 2).pos.x = ((30 : Int) : Rat) := by decide +kernel
    have slow : -29 / 5 ≤ (movingPlayer (3 / 5) 0 2).velocity.y ∧ (movingPlayer (3 / 5) 0 2).velocity.y ≤ 2 := by
      decide +kernel
    have falling : ¬ (movingPlayer (3 / 5) 0 2).velocity.y ≤ 0 := by decide +kernel
    exact (verticalStep_safe_iff place (by decide) (by decide +kernel) slow clear going).mpr
      fun _ rising => absurd rising falling

/-- Just before the top of a jump the player sinks into the floor and is set below it. -/
theorem sinkIntoFloor_unsafe :
    Clear wallAhead (movingPlayer (3 / 5) 0 (-1 / 5)).pos ∧ EndFree wallAhead (movingPlayer (3 / 5) 0 (-1 / 5)).moveY.pos ∧
      (checkCollisionPl wallAhead .vertical (movingPlayer (3 / 5) 0 (-1 / 5)).moveY).1.pos.y = 96 ∧
      ¬ SafeUpright wallAhead (movingPlayer (3 / 5) 0 (-1 / 5))
        (checkCollisionPl wallAhead .vertical (movingPlayer (3 / 5) 0 (-1 / 5)).moveY).1 := by
  have landed : (checkCollisionPl wallAhead .vertical (movingPlayer (3 / 5) 0 (-1 / 5)).moveY).1.pos.y = 96 := by
    decide +kernel
  refine ⟨by decide +kernel, by decide +kernel, landed, fun safe => ?_⟩
  have bound := safe.between.2
  rw [landed] at bound
  revert bound
  decide +kernel

end Trigger.Engine
