import Mathlib.Algebra.Order.Ring.Int
import Mathlib.Tactic.Linarith

/-! An interval that slides along a row of cells.

A slide shorter than a cell that meets a new cell is set back to the border of
this cell, and there meets only cells it met before it moved. The new cell is
the one at the leading end. Cells have one size, and cell `k` begins at `size * k`.
-/

set_option autoImplicit false

namespace Trigger.Foundation

/-- The interval of this width from `start` on has a point in the cell. -/
def Meets (size width start cell : Int) : Prop :=
  start < size * cell + size ∧ size * cell < start + width

instance (size width start cell : Int) : Decidable (Meets size width start cell) :=
  inferInstanceAs (Decidable (_ ∧ _))

/-- Before the cell in which the interval that begins at `next` ends. -/
def stopUp (size width next : Int) : Int := size * ((next + width - 1) / size) - width

/-- Behind the cell in which the interval begins. -/
def stopDown (size next : Int) : Int := size * (next / size) + size

variable {size width start next cell other : Int}

/-- A cell first met after a slide up lies wholly ahead of where the slide began. -/
theorem Meets.ahead (met : Meets size width next cell) (apart : ¬ Meets size width start cell)
    (ahead : start ≤ next) : start + width ≤ size * cell := by
  by_contra near
  exact apart ⟨by linarith [met.1], by linarith⟩

theorem Meets.behind (met : Meets size width next cell) (apart : ¬ Meets size width start cell)
    (back : next ≤ start) : size * cell + size ≤ start := by
  by_contra near
  exact apart ⟨by linarith, by linarith [met.2]⟩

theorem Meets.stopUp_eq (positive : 0 < size) (ahead : start ≤ next) (short : next - start < size)
    (met : Meets size width next cell) (apart : ¬ Meets size width start cell) :
    stopUp size width next = size * cell - width := by
  have beyond := met.ahead apart ahead
  have last : (next + width - 1) / size = cell := by
    apply le_antisymm
    · rw [← Int.lt_add_one_iff, Int.ediv_lt_iff_lt_mul positive]
      linarith
    · rw [Int.le_ediv_iff_mul_le positive]
      linarith [met.2]
  rw [stopUp, last]

theorem Meets.stopDown_eq (positive : 0 < size) (back : next ≤ start) (short : start - next < size)
    (met : Meets size width next cell) (apart : ¬ Meets size width start cell) :
    stopDown size next = size * cell + size := by
  have beyond := met.behind apart back
  have first : next / size = cell := by
    apply le_antisymm
    · rw [← Int.lt_add_one_iff, Int.ediv_lt_iff_lt_mul positive]
      linarith [met.1]
    · rw [Int.le_ediv_iff_mul_le positive]
      linarith
  rw [stopDown, first]

theorem Meets.slide_up (positive : 0 < size) (ahead : start ≤ next) (short : next - start < size)
    (met : Meets size width next cell) (apart : ¬ Meets size width start cell)
    (meets : Meets size width (stopUp size width next) other) : Meets size width start other := by
  rw [met.stopUp_eq positive ahead short apart] at meets
  obtain ⟨above, below⟩ := meets
  have beyond := met.ahead apart ahead
  -- The other cell ends where the new cell begins, or before.
  have earlier : size * other + size ≤ size * cell := by
    have before : other < cell := lt_of_mul_lt_mul_left (by linarith) positive.le
    calc size * other + size = size * (other + 1) := by rw [mul_add, mul_one]
      _ ≤ size * cell := mul_le_mul_of_nonneg_left before positive.le
  exact ⟨by linarith, by linarith [met.2]⟩

theorem Meets.slide_down (positive : 0 < size) (back : next ≤ start) (short : start - next < size)
    (met : Meets size width next cell) (apart : ¬ Meets size width start cell)
    (meets : Meets size width (stopDown size next) other) : Meets size width start other := by
  rw [met.stopDown_eq positive back short apart] at meets
  obtain ⟨above, below⟩ := meets
  have beyond := met.behind apart back
  -- The other cell begins where the new cell ends, or after.
  have later : size * cell + size ≤ size * other := by
    have behind : cell < other := lt_of_mul_lt_mul_left (by linarith) positive.le
    calc size * cell + size = size * (cell + 1) := by rw [mul_add, mul_one]
      _ ≤ size * other := mul_le_mul_of_nonneg_left behind positive.le
  exact ⟨by linarith [met.1], by linarith⟩

end Trigger.Foundation
