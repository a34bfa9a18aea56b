import Trigger.Engine.Player
import Trigger.Foundation.Sliding
import Mathlib.Tactic.Linarith
import Mathlib.Tactic.NormNum

/-! The tile collision of the player, in exact arithmetic.

Among the solid cells a move along one axis ends at its target, or at the border of
the cell in the way. The check of the source inspects the cells under the box, taken
at whole pixels, and sets the player back from the first solid one; it ends the move
where it should if it inspects the right cells and tells the side of the contact.
-/

set_option autoImplicit false

namespace Trigger.Engine
open Foundation Config

theorem ofInt_rat (value : Int) : (ofInt value : Rat) = value := rfl

def SolidAt (map : MapLayout) (i j : Int) : Prop :=
  ∃ value, map.at? i j = some value ∧ contactOf value = .solid

/-- The box of the player, 32 by 64 at whole pixels, meets the cell. -/
def Touches (pos : Vector2 Rat) (i j : Int) : Prop := Meets 32 64 ⌊pos.y⌋ i ∧ Meets 32 32 ⌊pos.x⌋ j

instance (pos : Vector2 Rat) (i j : Int) : Decidable (Touches pos i j) := inferInstanceAs (Decidable (_ ∧ _))

def SolidFree (map : MapLayout) (pos : Vector2 Rat) : Prop :=
  ∀ cell ∈ map.cells, contactOf cell.2.2 = .solid → ¬ Touches pos cell.1 cell.2.1

instance (map : MapLayout) (pos : Vector2 Rat) : Decidable (SolidFree map pos) :=
  inferInstanceAs (Decidable (∀ cell ∈ map.cells, _ → _))

theorem untouched_iff {map : MapLayout} {pos : Vector2 Rat} (kind : Int → Prop) :
    (∀ cell ∈ map.cells, kind cell.2.2 → ¬ Touches pos cell.1 cell.2.1) ↔
      ∀ i j, (∃ value, map.at? i j = some value ∧ kind value) → ¬ Touches pos i j := by
  rw [Grid.forall_mem_cells_iff fun i j value => kind value → ¬ Touches pos i j]
  constructor
  · rintro apart i j ⟨value, found, present⟩
    exact apart i j value found present
  · intro apart i j value found present
    exact apart i j ⟨value, found, present⟩

theorem solidFree_iff {map : MapLayout} {pos : Vector2 Rat} :
    SolidFree map pos ↔ ∀ i j, SolidAt map i j → ¬ Touches pos i j :=
  untouched_iff fun value => contactOf value = .solid

def Vector2.aside (pos : Vector2 Rat) (dx : Rat) : Vector2 Rat := { pos with x := pos.x + dx }
def Vector2.down (pos : Vector2 Rat) (dy : Rat) : Vector2 Rat := { pos with y := pos.y + dy }

/-- Where a move along the row ends: at its target, or at the border of the column in the way. -/
def slideX (map : MapLayout) (pos : Vector2 Rat) (dx : Rat) : Vector2 Rat :=
  if SolidFree map (pos.aside dx) then pos.aside dx
  else { pos with x := ((if 0 < dx then stopUp 32 32 ⌊pos.x + dx⌋ else stopDown 32 ⌊pos.x + dx⌋ : Int) : Rat) }

/-- Where a move along the column ends: at its target, or at the border of the row in the way. -/
def slideY (map : MapLayout) (pos : Vector2 Rat) (dy : Rat) : Vector2 Rat :=
  if SolidFree map (pos.down dy) then pos.down dy
  else { pos with y := ((if 0 < dy then stopUp 32 64 ⌊pos.y + dy⌋ else stopDown 32 ⌊pos.y + dy⌋ : Int) : Rat) }

theorem exists_touched {map : MapLayout} {pos : Vector2 Rat} (blocked : ¬ SolidFree map pos) :
    ∃ i j, SolidAt map i j ∧ Touches pos i j := by
  rw [solidFree_iff] at blocked
  push Not at blocked
  exact blocked

theorem floor_slide {a d : Rat} (ahead : 0 ≤ d) (short : d ≤ 31) : ⌊a⌋ ≤ ⌊a + d⌋ ∧ ⌊a + d⌋ - ⌊a⌋ < 32 := by
  refine ⟨Int.floor_le_floor (le_add_of_nonneg_right ahead), ?_⟩
  have above : a + d < ((⌊a⌋ + 32 : Int) : Rat) := by
    have next := Int.lt_floor_add_one a
    push_cast
    linarith
  have below := Int.floor_lt.mpr above
  omega

theorem floor_slide_back {a d : Rat} (back : d ≤ 0) (short : -31 ≤ d) : ⌊a + d⌋ ≤ ⌊a⌋ ∧ ⌊a⌋ - ⌊a + d⌋ < 32 := by
  have slide := floor_slide (a := a + d) (d := -d) (by linarith) (by linarith)
  rwa [add_neg_cancel_right] at slide

section
variable {map : MapLayout} {pos : Vector2 Rat} {d : Rat} {i j : Int}

theorem slideX_stop (free : SolidFree map pos) (slow : -31 ≤ d ∧ d ≤ 31) (solid : SolidAt map i j)
    (touched : Touches (pos.aside d) i j) :
    0 < d ∧ slideX map pos d = { pos with x := ((32 * j - 32 : Int) : Rat) } ∨
      d < 0 ∧ slideX map pos d = { pos with x := ((32 * j + 32 : Int) : Rat) } := by
  obtain ⟨row, column⟩ := touched
  have apart : ¬ Meets 32 32 ⌊pos.x⌋ j := fun met => solidFree_iff.mp free i j solid ⟨row, met⟩
  -- The cell is new to the box, so it is the one at its leading side.
  have blocked : ¬ SolidFree map (pos.aside d) := fun clear => solidFree_iff.mp clear i j solid ⟨row, column⟩
  rw [slideX, if_neg blocked]
  rcases lt_trichotomy d 0 with left | rfl | right
  · obtain ⟨back, short⟩ := floor_slide_back (a := pos.x) left.le slow.1
    rw [if_neg (lt_asymm left), column.stopDown_eq (by decide) back short apart]
    exact .inr ⟨left, rfl⟩
  · exact absurd (by rwa [Vector2.aside, add_zero] at column) apart
  · obtain ⟨ahead, short⟩ := floor_slide (a := pos.x) right.le slow.2
    rw [if_pos right, column.stopUp_eq (by decide) ahead short apart]
    exact .inl ⟨right, rfl⟩

theorem slideY_stop (free : SolidFree map pos) (slow : -31 ≤ d ∧ d ≤ 31) (solid : SolidAt map i j)
    (touched : Touches (pos.down d) i j) :
    0 < d ∧ slideY map pos d = { pos with y := ((32 * i - 64 : Int) : Rat) } ∨
      d < 0 ∧ slideY map pos d = { pos with y := ((32 * i + 32 : Int) : Rat) } := by
  obtain ⟨row, column⟩ := touched
  have apart : ¬ Meets 32 64 ⌊pos.y⌋ i := fun met => solidFree_iff.mp free i j solid ⟨met, column⟩
  have blocked : ¬ SolidFree map (pos.down d) := fun clear => solidFree_iff.mp clear i j solid ⟨row, column⟩
  rw [slideY, if_neg blocked]
  rcases lt_trichotomy d 0 with up | rfl | down
  · obtain ⟨back, short⟩ := floor_slide_back (a := pos.y) up.le slow.1
    rw [if_neg (lt_asymm up), row.stopDown_eq (by decide) back short apart]
    exact .inr ⟨up, rfl⟩
  · exact absurd (by rwa [Vector2.down, add_zero] at row) apart
  · obtain ⟨ahead, short⟩ := floor_slide (a := pos.y) down.le slow.2
    rw [if_pos down, row.stopUp_eq (by decide) ahead short apart]
    exact .inl ⟨down, rfl⟩

theorem slideX_touches (free : SolidFree map pos) (slow : -31 ≤ d ∧ d ≤ 31) (blocked : ¬ SolidFree map (pos.aside d))
    (touched : Touches (slideX map pos d) i j) : Touches pos i j := by
  obtain ⟨i', j', solid, row, column⟩ := exists_touched blocked
  have apart : ¬ Meets 32 32 ⌊pos.x⌋ j' := fun met => solidFree_iff.mp free i' j' solid ⟨row, met⟩
  obtain ⟨row', column'⟩ := touched
  rw [slideX, if_neg blocked] at row' column'
  refine ⟨row', ?_⟩
  rw [Int.floor_intCast] at column'
  rcases lt_or_ge 0 d with right | left
  · obtain ⟨ahead, short⟩ := floor_slide (a := pos.x) right.le slow.2
    rw [if_pos right] at column'
    exact column.slide_up (by decide) ahead short apart column'
  · obtain ⟨back, short⟩ := floor_slide_back (a := pos.x) left slow.1
    rw [if_neg (not_lt.mpr left)] at column'
    exact column.slide_down (by decide) back short apart column'

theorem slideY_touches (free : SolidFree map pos) (slow : -31 ≤ d ∧ d ≤ 31) (blocked : ¬ SolidFree map (pos.down d))
    (touched : Touches (slideY map pos d) i j) : Touches pos i j := by
  obtain ⟨i', j', solid, row, column⟩ := exists_touched blocked
  have apart : ¬ Meets 32 64 ⌊pos.y⌋ i' := fun met => solidFree_iff.mp free i' j' solid ⟨met, column⟩
  obtain ⟨row', column'⟩ := touched
  rw [slideY, if_neg blocked] at row' column'
  refine ⟨?_, column'⟩
  rw [Int.floor_intCast] at row'
  rcases lt_or_ge 0 d with down | up
  · obtain ⟨ahead, short⟩ := floor_slide (a := pos.y) down.le slow.2
    rw [if_pos down] at row'
    exact row.slide_up (by decide) ahead short apart row'
  · obtain ⟨back, short⟩ := floor_slide_back (a := pos.y) up slow.1
    rw [if_neg (not_lt.mpr up)] at row'
    exact row.slide_down (by decide) back short apart row'

theorem slideX_free (free : SolidFree map pos) (slow : -31 ≤ d ∧ d ≤ 31) : SolidFree map (slideX map pos d) := by
  by_cases clear : SolidFree map (pos.aside d)
  · rw [slideX, if_pos clear]
    exact clear
  · rw [solidFree_iff]
    intro i j solid touched
    exact solidFree_iff.mp free i j solid (slideX_touches free slow clear touched)

theorem slideY_free (free : SolidFree map pos) (slow : -31 ≤ d ∧ d ≤ 31) : SolidFree map (slideY map pos d) := by
  by_cases clear : SolidFree map (pos.down d)
  · rw [slideY, if_pos clear]
    exact clear
  · rw [solidFree_iff]
    intro i j solid touched
    exact solidFree_iff.mp free i j solid (slideY_touches free slow clear touched)

end

/-- The loops of the check range over exactly the cells of the map that the box touches. -/
def InspectsTouched (map : MapLayout) (pos : Vector2 Rat) : Prop :=
  ∀ cell ∈ map.cells, ((cell.1 : Int), (cell.2.1 : Int)) ∈ scannedCells pos ↔ Touches pos cell.1 cell.2.1

instance (map : MapLayout) (pos : Vector2 Rat) : Decidable (InspectsTouched map pos) :=
  inferInstanceAs (Decidable (∀ cell ∈ map.cells, _))

theorem inspectsTouched_iff {map : MapLayout} {pos : Vector2 Rat} :
    InspectsTouched map pos ↔ ∀ i j value, map.at? i j = some value → ((i, j) ∈ scannedCells pos ↔ Touches pos i j) :=
  Grid.forall_mem_cells_iff fun i j _ => (i, j) ∈ scannedCells pos ↔ Touches pos i j

theorem InspectsTouched.at_solid {map : MapLayout} {pos : Vector2 Rat} (inspects : InspectsTouched map pos)
    {i j : Int} (solid : SolidAt map i j) : (i, j) ∈ scannedCells pos ↔ Touches pos i j := by
  obtain ⟨value, found, _⟩ := solid
  exact inspectsTouched_iff.mp inspects i j value found

theorem mem_intRange {first last k : Int} : k ∈ intRange first last ↔ first ≤ k ∧ k ≤ last := by
  simp only [intRange, List.mem_map, List.mem_range]
  constructor
  · rintro ⟨n, bound, rfl⟩
    omega
  · intro inside
    exact ⟨(k - first).toNat, by omega, by omega⟩

theorem truncate_cases (q : Rat) :
    0 ≤ ⌊q⌋ ∧ truncate q = ⌊q⌋ ∨ ⌊q⌋ < 0 ∧ ⌊q⌋ ≤ truncate q ∧ truncate q ≤ ⌊q⌋ + 1 ∧ truncate q ≤ 0 := by
  unfold truncate
  split
  · rename_i nonneg
    exact .inl ⟨Int.floor_nonneg.mpr nonneg, rfl⟩
  · rename_i negative
    have below : q < 0 := not_le.mp negative
    refine .inr ⟨Int.floor_lt.mpr (by exact_mod_cast below), Int.floor_le_ceil q, Int.ceil_le_floor_add_one q, ?_⟩
    exact Int.ceil_le.mpr (by exact_mod_cast below.le)

/-- Division towards zero inspects the cells that are met, as long as the interval
begins less than a cell before the first one. -/
theorem inspected_iff {c : Rat} (width : Int) {k : Int} (near : -31 ≤ c) (whole : 32 ∣ width)
    (positive : 0 < width) (range : 0 ≤ k) :
    (truncate c).tdiv 32 ≤ k ∧ k ≤ (truncate c + width - 1).tdiv 32 ↔ Meets 32 width ⌊c⌋ k := by
  have low : -31 ≤ ⌊c⌋ := Int.le_floor.mpr (by exact_mod_cast near)
  obtain ⟨parts, rfl⟩ := whole
  have last : (truncate c + 32 * parts - 1).tdiv 32 = (truncate c + 32 * parts - 1) / 32 :=
    Int.tdiv_eq_ediv_of_nonneg (by rcases truncate_cases c with _ | _ <;> omega)
  have first : (truncate c).tdiv 32 ≤ k ↔ truncate c < 32 * k + 32 := by
    rcases truncate_cases c with ⟨inside, whole⟩ | ⟨outside, above, _, below⟩
    · rw [Int.tdiv_eq_ediv_of_nonneg (by omega)]
      omega
    · have zero : (truncate c).tdiv 32 = 0 := by
        rw [← Int.neg_neg (truncate c), Int.neg_tdiv, Int.tdiv_eq_ediv_of_nonneg (by omega)]
        omega
      omega
  rw [first, last, Meets]
  rcases truncate_cases c with ⟨inside, whole⟩ | ⟨outside, above, small, below⟩ <;> omega

theorem mem_scannedCells {pos : Vector2 Rat} {i j : Int} :
    (i, j) ∈ scannedCells pos ↔
      ((truncate pos.y).tdiv 32 ≤ i ∧ i ≤ (truncate pos.y + 64 - 1).tdiv 32) ∧
        (truncate pos.x).tdiv 32 ≤ j ∧ j ≤ (truncate pos.x + 32 - 1).tdiv 32 := by
  simp only [scannedCells, List.mem_flatMap, List.mem_map, mem_intRange, Prod.mk.injEq]
  constructor
  · rintro ⟨_, inRows, _, inColumns, rfl, rfl⟩
    exact ⟨inRows, inColumns⟩
  · rintro ⟨inRows, inColumns⟩
    exact ⟨_, inRows, _, inColumns, rfl, rfl⟩

/-- Less than a cell beyond the left and the upper border, and anywhere else, the
inspected cells are the right ones. -/
theorem inspectsTouched_of_near (map : MapLayout) {pos : Vector2 Rat} (left : -31 ≤ pos.x) (top : -31 ≤ pos.y) :
    InspectsTouched map pos := by
  rintro ⟨i, j, value⟩ _
  have rows := inspected_iff 64 top (by decide) (by decide) (Int.natCast_nonneg i)
  have columns := inspected_iff 32 left (by decide) (by decide) (Int.natCast_nonneg j)
  rw [Touches, ← rows, ← columns]
  exact mem_scannedCells

def Player.speed (player : Player Rat) : Axis → Rat
  | .horizontal => player.velocity.x
  | .vertical => player.velocity.y

theorem hitCell_right (player : Player Rat) (right : 0 < player.velocity.x) (i j : Int) :
    player.hitCell .horizontal i j = { player with
      pos := { player.pos with x := ((j * 32 - 32 : Int) : Rat) }
      velocity := { player.velocity with x := 0 } } := by
  rw [hitCell_horizontal, Player.hitRight, if_pos ⟨right, rfl⟩, Player.hitLeft]
  exact if_neg fun left => lt_irrefl _ left.1

theorem hitCell_left (player : Player Rat) (left : player.velocity.x < 0) (i j : Int) :
    player.hitCell .horizontal i j = { player with
      pos := { player.pos with x := ((j * 32 + 32 : Int) : Rat) }
      velocity := { player.velocity with x := 0 } } := by
  rw [hitCell_horizontal, Player.hitRight, if_neg fun right => lt_asymm left right.1, Player.hitLeft]
  exact if_pos ⟨left, rfl⟩

theorem hitCell_bottom (player : Player Rat) (falling : 0 < player.velocity.y) (i j : Int) :
    player.hitCell .vertical i j = { player with
      pos := { player.pos with y := ((i * 32 - 64 : Int) : Rat) }
      onGround := true
      velocity := { player.velocity with y := 0 } } := by
  rw [hitCell_vertical, Player.hitBottom, if_pos ⟨falling, rfl⟩, Player.hitTop]
  exact if_neg fun rising => lt_irrefl _ rising.1

theorem hitCell_top (player : Player Rat) (rising : player.velocity.y < 0) (i j : Int) :
    player.hitCell .vertical i j = { player with
      pos := { player.pos with y := ((i * 32 + 32 : Int) : Rat) }
      onGround := false
      velocity := { player.velocity with y := 0 } } := by
  rw [hitCell_vertical, Player.hitBottom, if_neg fun falling => lt_asymm rising falling.1, Player.hitTop]
  exact if_pos ⟨rising, rfl⟩

theorem hitCell_still {player : Player Rat} {axis : Axis} (still : player.speed axis = 0) (i j : Int) :
    player.hitCell axis i j = player := by
  cases axis with
  | horizontal =>
    have zero : player.velocity.x = 0 := still
    rw [hitCell_horizontal, Player.hitRight, if_neg fun right => right.1.ne' zero, Player.hitLeft,
      if_neg fun left => left.1.ne zero]
  | vertical =>
    have zero : player.velocity.y = 0 := still
    rw [hitCell_vertical, Player.hitBottom, if_neg fun falling => falling.1.ne' zero, Player.hitTop,
      if_neg fun rising => rising.1.ne zero]

theorem hitCell_speed (player : Player Rat) (axis : Axis) (i j : Int) :
    (player.hitCell axis i j).speed axis = 0 := by
  cases axis with
  | horizontal =>
    rcases lt_trichotomy player.velocity.x 0 with left | zero | right
    · rw [hitCell_left player left]
      rfl
    · have still : player.speed .horizontal = 0 := zero
      rw [hitCell_still still, still]
    · rw [hitCell_right player right]
      rfl
  | vertical =>
    rcases lt_trichotomy player.velocity.y 0 with rising | zero | falling
    · rw [hitCell_top player rising]
      rfl
    · have still : player.speed .vertical = 0 := zero
      rw [hitCell_still still, still]
    · rw [hitCell_bottom player falling]
      rfl

theorem collideCells_cons {map : MapLayout} {axis : Axis} {i j : Int} {rest : List (Int × Int)}
    {player next : Player Rat} (result : collideCells map axis ((i, j) :: rest) player = (next, false)) :
    ¬ SolidAt map i j ∧ collideCells map axis rest player = (next, false) ∨
      SolidAt map i j ∧ collideCells map axis rest (player.hitCell axis i j) = (next, false) := by
  rw [collideCells] at result
  cases found : map.at? i j with
  | none =>
    rw [found] at result
    refine .inl ⟨?_, result⟩
    rintro ⟨value, present, -⟩
    cases found.symm.trans present
  | some value =>
    simp only [found] at result
    cases contact : contactOf value with
    | free =>
      rw [contact] at result
      refine .inl ⟨?_, result⟩
      rintro ⟨other, present, solid⟩
      cases found.symm.trans present
      cases contact.symm.trans solid
    | levelEnd => simp [contact] at result
    | solid =>
      rw [contact] at result
      exact .inr ⟨⟨value, found, contact⟩, result⟩

theorem collideCells_still {map : MapLayout} {axis : Axis} {cells : List (Int × Int)} {player next : Player Rat}
    (still : player.speed axis = 0) (result : collideCells map axis cells player = (next, false)) :
    next = player := by
  induction cells with
  | nil =>
    cases result
    rfl
  | cons cell rest ih =>
    rcases collideCells_cons result with ⟨_, later⟩ | ⟨_, later⟩
    · exact ih later
    · rw [hitCell_still still] at later
      exact ih later

/-- Only the first solid cell moves the player: the contact stops it. -/
theorem collideCells_cases {map : MapLayout} {axis : Axis} {cells : List (Int × Int)} {player next : Player Rat}
    (result : collideCells map axis cells player = (next, false)) :
    (next = player ∧ ∀ cell ∈ cells, ¬ SolidAt map cell.1 cell.2) ∨
      ∃ cell ∈ cells, SolidAt map cell.1 cell.2 ∧ next = player.hitCell axis cell.1 cell.2 := by
  induction cells with
  | nil =>
    cases result
    exact .inl ⟨rfl, nofun⟩
  | cons cell rest ih =>
    rcases collideCells_cons result with ⟨apart, later⟩ | ⟨solid, later⟩
    · rcases ih later with ⟨same, free⟩ | ⟨other, member, solid, same⟩
      · exact .inl ⟨same, List.forall_mem_cons.mpr ⟨apart, free⟩⟩
      · exact .inr ⟨other, List.mem_cons_of_mem _ member, solid, same⟩
    · exact .inr ⟨cell, List.mem_cons_self .., solid, collideCells_still (hitCell_speed ..) later⟩

theorem collideCells_moves (map : MapLayout) (axis : Axis) (cells : List (Int × Int)) (player : Player Rat) :
    (collideCells map axis cells player).1 = player ∨
      ∃ cell ∈ cells, SolidAt map cell.1 cell.2 ∧
        (collideCells map axis cells player).1 = player.hitCell axis cell.1 cell.2 := by
  induction cells generalizing player with
  | nil => exact .inl rfl
  | cons cell rest ih =>
    obtain ⟨i, j⟩ := cell
    have later : (collideCells map axis rest player).1 = player ∨
        ∃ cell ∈ (i, j) :: rest, SolidAt map cell.1 cell.2 ∧
          (collideCells map axis rest player).1 = player.hitCell axis cell.1 cell.2 := by
      rcases ih player with same | ⟨other, member, solid, same⟩
      · exact .inl same
      · exact .inr ⟨other, List.mem_cons_of_mem _ member, solid, same⟩
    rw [collideCells]
    split
    · exact later
    · rename_i value found
      split
      · exact later
      · exact .inl rfl
      · rename_i contact
        -- The contact stops the player, so the later cells leave it where it is.
        have stopped : (collideCells map axis rest (player.hitCell axis i j)).1 = player.hitCell axis i j := by
          rcases ih (player.hitCell axis i j) with same | ⟨other, -, -, same⟩
          · exact same
          · rw [same, hitCell_still (hitCell_speed player axis i j)]
        exact .inr ⟨(i, j), List.mem_cons_self .., ⟨value, found, contact⟩, stopped⟩

theorem checkCollisionPl_cases {map : MapLayout} {axis : Axis} {player : Player Rat}
    (inspects : InspectsTouched map player.pos) (going : (checkCollisionPl map axis player).2 = false) :
    ((checkCollisionPl map axis player).1 = player ∧ SolidFree map player.pos) ∨
      ∃ i j, SolidAt map i j ∧ Touches player.pos i j ∧
        (checkCollisionPl map axis player).1 = player.hitCell axis i j := by
  have result : collideCells map axis (scannedCells player.pos) player =
      ((checkCollisionPl map axis player).1, false) := Prod.ext rfl going
  rcases collideCells_cases result with ⟨same, free⟩ | ⟨⟨i, j⟩, member, solid, same⟩
  · exact .inl ⟨same, solidFree_iff.mpr fun i j solid touched => free (i, j) ((inspects.at_solid solid).mpr touched) solid⟩
  · exact .inr ⟨i, j, solid, (inspects.at_solid solid).mp member, same⟩

theorem horizontal_stops {map : MapLayout} {player : Player Rat} (free : SolidFree map player.pos)
    (slow : -31 ≤ player.velocity.x ∧ player.velocity.x ≤ 31) (inspects : InspectsTouched map player.moveX.pos)
    (going : (checkCollisionPl map .horizontal player.moveX).2 = false) :
    (checkCollisionPl map .horizontal player.moveX).1.pos = slideX map player.pos player.velocity.x := by
  rcases checkCollisionPl_cases inspects going with ⟨same, clear⟩ | ⟨i, j, solid, touched, same⟩
  · rw [same, slideX]
    exact (if_pos clear).symm
  · rw [same]
    rcases slideX_stop free slow solid touched with ⟨right, stops⟩ | ⟨left, stops⟩
    · rw [stops, hitCell_right player.moveX right, mul_comm]
      rfl
    · rw [stops, hitCell_left player.moveX left, mul_comm]
      rfl

/-- The vertical check ends the move where the solid cells do. The move is one pixel
longer than the velocity says, so while the velocity is in `(-1, 0]` the player sinks
and a floor is taken for a ceiling, or for nothing. -/
theorem vertical_stops {map : MapLayout} {player : Player Rat} (free : SolidFree map player.pos)
    (slow : -31 ≤ player.velocity.y + 1 ∧ player.velocity.y + 1 ≤ 31) (inspects : InspectsTouched map player.moveY.pos)
    (landing : -1 < player.velocity.y → player.velocity.y ≤ 0 → SolidFree map player.moveY.pos)
    (going : (checkCollisionPl map .vertical player.moveY).2 = false) :
    (checkCollisionPl map .vertical player.moveY).1.pos = slideY map player.pos (player.velocity.y + 1) := by
  rcases checkCollisionPl_cases inspects going with ⟨same, clear⟩ | ⟨i, j, solid, touched, same⟩
  · rw [same, slideY]
    exact (if_pos clear).symm
  · have outside : ¬ (-1 < player.velocity.y ∧ player.velocity.y ≤ 0) := fun sinking =>
      solidFree_iff.mp (landing sinking.1 sinking.2) i j solid touched
    rw [same]
    rcases slideY_stop free slow solid touched with ⟨down, stops⟩ | ⟨up, stops⟩
    · have falling : 0 < player.velocity.y := not_le.mp fun above => outside ⟨by linarith, above⟩
      rw [stops, hitCell_bottom player.moveY falling, mul_comm]
      rfl
    · have rising : player.velocity.y < 0 := by linarith
      rw [stops, hitCell_top player.moveY rising, mul_comm]
      rfl

/-- What holds of the velocity between two ticks; a jump starts from the ground, so
the speeds stay far below a cell in a tick. -/
structure Settled (player : Player Rat) : Prop where
  still : player.velocity.x = 0
  grounded : player.onGround = true → player.velocity.y = 0
  rising : -6 ≤ player.velocity.y
  falling : player.velocity.y ≤ 11 / 5

structure Moving (player : Player Rat) : Prop where
  sideways : -3 ≤ player.velocity.x ∧ player.velocity.x ≤ 3
  airborne : player.onGround = false
  rising : -6 ≤ player.velocity.y
  falling : player.velocity.y ≤ 11 / 5

theorem walk_sideways {player : Player Rat} (still : player.velocity.x = 0) (keys : MoveKeys) :
    -3 ≤ (player.walk keys).velocity.x ∧ (player.walk keys).velocity.x ≤ 3 := by
  have one : (ofInt 1 : Rat) = 1 := rfl
  have three : (ofInt 3 : Rat) = 3 := rfl
  obtain ⟨d, a, leftShift, space⟩ := keys
  cases d <;> cases a <;> cases leftShift <;> norm_num [Player.walk, still, one, three]

theorem fall_eq (player : Player Rat) :
    player.fall = { player with
      velocity := { player.velocity with
        y := player.velocity.y + (if player.velocity.y < 2 then 1 / 5 else 0) }
      onGround := if 0 < player.velocity.y + (if player.velocity.y < 2 then 1 / 5 else 0) then false
        else player.onGround } := by
  have two : (ofInt 2 : Rat) = 2 := rfl
  have slow : fminf player.velocity.y (ofInt 2) < ofInt 2 ↔ player.velocity.y < 2 := by
    rw [two, fminf]
    split
    · rename_i fast
      exact ⟨fun below => absurd below (lt_irrefl _), fun below => absurd fast (lt_asymm below)⟩
    · exact Iff.rfl
  simp only [Player.fall, slow]
  rfl

theorem fall_moving {player : Player Rat} (sideways : -3 ≤ player.velocity.x ∧ player.velocity.x ≤ 3)
    (grounded : player.onGround = true → player.velocity.y = 0) (rising : -6 ≤ player.velocity.y)
    (falling : player.velocity.y ≤ 11 / 5) : Moving player.fall := by
  rw [fall_eq]
  refine ⟨sideways, ?_, ?_, ?_⟩
  · -- A player on the ground has no velocity, so gravity takes it off the ground.
    cases ground : player.onGround with
    | false => simp
    | true => norm_num [grounded ground]
  · dsimp only
    split <;> linarith
  · dsimp only
    split <;> linarith

theorem start_moving {player : Player Rat} (settled : Settled player) (keys : MoveKeys) :
    Moving (player.start keys) ∧ (player.start keys).pos = player.pos := by
  obtain ⟨velocity, ground, place⟩ := walk_upright player keys
  have six : (ofInt 6 : Rat) = 6 := rfl
  have sideways := walk_sideways settled.still keys
  rw [Player.start]
  by_cases jumps : keys.space ∧ (player.walk keys).onGround
  · have leaps : (player.walk keys).leap keys = { player.walk keys with
        velocity := { (player.walk keys).velocity with y := (player.walk keys).velocity.y - ofInt 6 }
        onGround := false
        currentFrame := 0 } := if_pos jumps
    have zero : (player.walk keys).velocity.y = 0 := velocity.trans (settled.grounded (ground ▸ jumps.2))
    refine ⟨fall_moving ?_ ?_ ?_ ?_, ?_⟩ <;> rw [leaps]
    · exact sideways
    · exact nofun
    · norm_num [zero, six]
    · norm_num [zero, six]
    · exact place
  · have stays : (player.walk keys).leap keys = player.walk keys := if_neg jumps
    rw [stays]
    refine ⟨fall_moving sideways ?_ ?_ ?_, place⟩ <;> rw [velocity]
    · rw [ground]
      exact settled.grounded
    · exact settled.rising
    · exact settled.falling

def Player.sidestep (player : Player Rat) (map : MapLayout) (keys : MoveKeys) : Vector2 Rat :=
  slideX map player.pos (player.start keys).velocity.x

/-- The target of the vertical move, a pixel below what the velocity says. -/
def Player.drop (player : Player Rat) (map : MapLayout) (keys : MoveKeys) : Vector2 Rat :=
  (player.sidestep map keys).down ((player.start keys).velocity.y + 1)

def Player.land (player : Player Rat) (map : MapLayout) (keys : MoveKeys) : Vector2 Rat :=
  slideY map (player.sidestep map keys) ((player.start keys).velocity.y + 1)

/-- At the targets of both moves the check inspects what the box touches, and no solid
cell is at the second one while the velocity has the wrong sign. -/
structure CleanMove (map : MapLayout) (keys : MoveKeys) (player : Player Rat) : Prop where
  sideways : InspectsTouched map (player.pos.aside (player.start keys).velocity.x)
  upright : InspectsTouched map (player.drop map keys)
  landing : -1 < (player.start keys).velocity.y → (player.start keys).velocity.y ≤ 0 →
    SolidFree map (player.drop map keys)

instance (map : MapLayout) (keys : MoveKeys) (player : Player Rat) : Decidable (CleanMove map keys player) :=
  decidable_of_iff
    (InspectsTouched map (player.pos.aside (player.start keys).velocity.x) ∧ InspectsTouched map (player.drop map keys) ∧
      (-1 < (player.start keys).velocity.y → (player.start keys).velocity.y ≤ 0 → SolidFree map (player.drop map keys)))
    ⟨fun ⟨sideways, upright, landing⟩ => ⟨sideways, upright, landing⟩,
      fun ⟨sideways, upright, landing⟩ => ⟨sideways, upright, landing⟩⟩

theorem checkedX_moving {map : MapLayout} {keys : MoveKeys} {player : Player Rat} (settled : Settled player)
    (clean : CleanMove map keys player)
    (result : (checkCollisionPl map .horizontal (player.start keys).moveX).2 = false) :
    (player.checkedX map keys).velocity.y = (player.start keys).velocity.y ∧
      (player.checkedX map keys).onGround = false := by
  obtain ⟨moving, place⟩ := start_moving settled keys
  have inspects : InspectsTouched map (player.start keys).moveX.pos := by
    rw [Player.moveX, place]
    exact clean.sideways
  rcases checkCollisionPl_cases inspects result with ⟨same, _⟩ | ⟨i, j, _, _, same⟩
  · rw [Player.checkedX, same]
    exact ⟨rfl, moving.airborne⟩
  · rw [Player.checkedX, same]
    obtain ⟨velocity, ground⟩ := horizontal_upright (player.start keys).moveX i j
    exact ⟨velocity, ground.trans moving.airborne⟩

theorem checkedX_pos {map : MapLayout} {keys : MoveKeys} {player : Player Rat} (settled : Settled player)
    (free : SolidFree map player.pos) (clean : CleanMove map keys player)
    (result : (checkCollisionPl map .horizontal (player.start keys).moveX).2 = false) :
    (player.checkedX map keys).pos = player.sidestep map keys := by
  obtain ⟨moving, place⟩ := start_moving settled keys
  have inspects : InspectsTouched map (player.start keys).moveX.pos := by
    rw [Player.moveX, place]
    exact clean.sideways
  rw [Player.checkedX, horizontal_stops (place ▸ free)
    ⟨by linarith [moving.sideways.1], by linarith [moving.sideways.2]⟩ inspects result, place]
  rfl

theorem sidestep_free {map : MapLayout} {keys : MoveKeys} {player : Player Rat} (settled : Settled player)
    (free : SolidFree map player.pos) : SolidFree map (player.sidestep map keys) := by
  have sideways := (start_moving settled keys).1.sideways
  exact slideX_free free ⟨by linarith [sideways.1], by linarith [sideways.2]⟩

theorem land_free {map : MapLayout} {keys : MoveKeys} {player : Player Rat} (settled : Settled player)
    (free : SolidFree map player.pos) : SolidFree map (player.land map keys) := by
  have moving := (start_moving settled keys).1
  exact slideY_free (sidestep_free settled free) ⟨by linarith [moving.rising], by linarith [moving.falling]⟩

section
variable {map : MapLayout} {keys : MoveKeys} {player : Player Rat}
variable (settled : Settled player) (free : SolidFree map player.pos) (clean : CleanMove map keys player)
variable (endedX : (checkCollisionPl map .horizontal (player.start keys).moveX).2 = false)
variable (endedY : (checkCollisionPl map .vertical (player.checkedX map keys).moveY).2 = false)
include settled free clean endedX

theorem moveY_pos : (player.checkedX map keys).moveY.pos = player.drop map keys := by
  have place := checkedX_pos settled free clean endedX
  have velocity := (checkedX_moving settled clean endedX).1
  simp only [Player.moveY, Player.drop, Vector2.down, place, velocity]
  rfl

include endedY

theorem checkedY_pos : (player.checkedY map keys).pos = player.land map keys := by
  have moving := (start_moving settled keys).1
  have place := checkedX_pos settled free clean endedX
  have velocity := (checkedX_moving settled clean endedX).1
  have target := moveY_pos settled free clean endedX
  have between : SolidFree map (player.checkedX map keys).pos := place ▸ sidestep_free settled free
  have slow : -31 ≤ (player.checkedX map keys).velocity.y + 1 ∧ (player.checkedX map keys).velocity.y + 1 ≤ 31 := by
    rw [velocity]
    exact ⟨by linarith [moving.rising], by linarith [moving.falling]⟩
  have landing : -1 < (player.checkedX map keys).velocity.y → (player.checkedX map keys).velocity.y ≤ 0 →
      SolidFree map (player.checkedX map keys).moveY.pos := by
    rw [velocity, target]
    exact clean.landing
  rw [Player.checkedY, vertical_stops between slow (target ▸ clean.upright) landing endedY, place, velocity]
  rfl

theorem checkedY_settles : ((player.checkedY map keys).onGround = true → (player.checkedY map keys).velocity.y = 0) ∧
    -6 ≤ (player.checkedY map keys).velocity.y ∧ (player.checkedY map keys).velocity.y ≤ 11 / 5 := by
  have moving := (start_moving settled keys).1
  obtain ⟨same, airborne⟩ := checkedX_moving settled clean endedX
  have inspects : InspectsTouched map (player.checkedX map keys).moveY.pos :=
    moveY_pos settled free clean endedX ▸ clean.upright
  rcases checkCollisionPl_cases inspects endedY with ⟨kept, _⟩ | ⟨i, j, _, _, kept⟩
  · have velocity : (player.checkedY map keys).velocity.y = (player.start keys).velocity.y := by
      rw [Player.checkedY, kept]
      exact same
    have ground : (player.checkedY map keys).onGround = false := by
      rw [Player.checkedY, kept, moveY_onGround]
      exact airborne
    rw [velocity, ground]
    exact ⟨nofun, moving.rising, moving.falling⟩
  · have stopped : (player.checkedY map keys).velocity.y = 0 := by
      rw [Player.checkedY, kept]
      exact hitCell_speed _ .vertical i j
    rw [stopped]
    exact ⟨fun _ => rfl, by norm_num, by norm_num⟩

end

theorem updatePlayer_clean {map : MapLayout} {keys : MoveKeys} {frame : Int} {player : Player Rat}
    (settled : Settled player) (free : SolidFree map player.pos) (clean : CleanMove map keys player)
    (going : (updatePlayer map keys frame player).ended = false) :
    Settled (updatePlayer map keys frame player).player ∧
      (updatePlayer map keys frame player).player.pos = player.land map keys := by
  obtain ⟨endedX, endedY⟩ := Bool.or_eq_false_iff.mp going
  obtain ⟨velocity, ground⟩ := updatePlayer_upright map keys frame player
  obtain ⟨grounded, rising, falling⟩ := checkedY_settles settled free clean endedX endedY
  constructor
  · refine ⟨rfl, ?_, ?_, ?_⟩
    · rw [ground, velocity]
      exact grounded
    · rw [velocity]
      exact rising
    · rw [velocity]
      exact falling
  · exact (updatePlayer_pos map keys frame player).trans (checkedY_pos settled free clean endedX endedY)

end Trigger.Engine
