import Mathlib.Data.Int.Log
import Mathlib.Algebra.Order.Floor.Ring
import Mathlib.Algebra.Ring.Int.Parity
import Mathlib.Tactic.FieldSimp
import Mathlib.Tactic.Linarith
import Mathlib.Tactic.Positivity
import Mathlib.Tactic.Ring

/-! Rounding to binary floating-point numbers, to the nearest and ties to even.

The significand has a given number of bits; the exponent is not bounded. The numbers
that the significand holds are those that are their own rounding, every rounding is one of
them, and no number is rounded across an integer that it holds.
-/

set_option autoImplicit false

namespace Trigger.Foundation

variable {K : Type} [Field K] [LinearOrder K] [IsStrictOrderedRing K] [FloorRing K]

def roundHalfEven (x : K) : Int :=
  if Int.fract x < 1 / 2 then ⌊x⌋
  else if 1 / 2 < Int.fract x then ⌊x⌋ + 1
  else if ⌊x⌋ % 2 = 0 then ⌊x⌋ else ⌊x⌋ + 1

/-- The exponent of the last bit of a significand of `precision` bits. -/
def lastBit (precision : Nat) (x : K) : Int := Int.log 2 |x| + 1 - precision

def roundBinary (precision : Nat) (x : K) : K :=
  if x = 0 then 0 else roundHalfEven (x / 2 ^ lastBit precision x) * 2 ^ lastBit precision x

/-- A number that a significand of `precision` bits holds. -/
def Representable (precision : Nat) (x : K) : Prop := ∃ m e : Int, |m| < 2 ^ precision ∧ x = m * 2 ^ e

theorem roundHalfEven_intCast (n : Int) : roundHalfEven (n : K) = n := by
  rw [roundHalfEven, Int.fract_intCast, if_pos (by norm_num), Int.floor_intCast]

theorem roundHalfEven_neg (x : K) : roundHalfEven (-x) = -roundHalfEven x := by
  by_cases whole : Int.fract x = 0
  · rw [← Int.floor_add_fract x, whole, add_zero, ← Int.cast_neg, roundHalfEven_intCast, roundHalfEven_intCast]
  · have apart : 0 < Int.fract x := lt_of_le_of_ne (Int.fract_nonneg x) (Ne.symm whole)
    have parts := Int.floor_add_fract x
    have floor : ⌊-x⌋ = -⌊x⌋ - 1 := by
      rw [Int.floor_eq_iff]
      have := Int.lt_floor_add_one x
      push_cast
      constructor <;> linarith
    have rest : Int.fract (-x) = 1 - Int.fract x := Int.fract_neg whole
    unfold roundHalfEven
    rw [floor, rest]
    split_ifs <;> first | omega | (exfalso; linarith)

omit [IsStrictOrderedRing K] in
theorem le_roundHalfEven {x : K} {n : Int} (below : (n : K) ≤ x) : n ≤ roundHalfEven x := by
  have floor : n ≤ ⌊x⌋ := Int.le_floor.mpr below
  unfold roundHalfEven
  split_ifs <;> omega

theorem roundBinary_neg (precision : Nat) (x : K) : roundBinary precision (-x) = -roundBinary precision x := by
  simp only [roundBinary, lastBit, abs_neg, neg_eq_zero, neg_div, roundHalfEven_neg, Int.cast_neg]
  split_ifs with zero
  · exact neg_zero.symm
  · rw [neg_mul]

section
variable {precision : Nat} {x : K}

theorem le_roundBinary_of_scaled {bound : K} {m : Int} (nonzero : x ≠ 0) (below : bound ≤ x)
    (scaled : bound / 2 ^ lastBit precision x = m) : bound ≤ roundBinary precision x := by
  have positive : (0 : K) < 2 ^ lastBit precision x := zpow_pos (by norm_num) _
  rw [roundBinary, if_neg nonzero, ← div_le_iff₀ positive, scaled]
  exact_mod_cast le_roundHalfEven (scaled ▸ div_le_div_of_nonneg_right below positive.le)

theorem leading_le_roundBinary (wide : 0 < precision) (positive : 0 < x) :
    (2 : K) ^ Int.log 2 x ≤ roundBinary precision x := by
  have leading : ((2 : Nat) : K) ^ Int.log 2 x ≤ x := Int.zpow_log_le_self (by decide) positive
  refine le_roundBinary_of_scaled (m := 2 ^ (precision - 1)) positive.ne' (by exact_mod_cast leading) ?_
  have exponent : Int.log 2 x - lastBit precision x = ((precision - 1 : Nat) : Int) := by
    rw [lastBit, abs_of_pos positive]
    omega
  rw [← zpow_sub₀ (by norm_num), exponent, zpow_natCast]
  push_cast
  rfl

theorem le_roundBinary {n : Int} (wide : 0 < precision) (held : |n| < 2 ^ precision) (below : (n : K) ≤ x) :
    (n : K) ≤ roundBinary precision x := by
  by_cases zero : x = 0
  · rw [roundBinary, if_pos zero, ← zero]
    exact below
  rcases le_or_gt (lastBit precision x) 0 with units | large
  · -- The last bit is not above the units, so in its scale the integer is one.
    obtain ⟨shift, same⟩ := Int.exists_eq_neg_ofNat units
    refine le_roundBinary_of_scaled (m := n * 2 ^ shift) zero below ?_
    rw [same, zpow_neg, div_inv_eq_mul, zpow_natCast]
    push_cast
    rfl
  · have log : (precision : Int) ≤ Int.log 2 |x| := by
      unfold lastBit at large
      omega
    have power : (2 : K) ^ precision ≤ 2 ^ Int.log 2 |x| := by
      rw [← zpow_natCast]
      exact zpow_le_zpow_right₀ (by norm_num) log
    have leading : ((2 : Nat) : K) ^ Int.log 2 |x| ≤ |x| := Int.zpow_log_le_self (by decide) (abs_pos.mpr zero)
    have inside : |(n : K)| < 2 ^ precision := by exact_mod_cast held
    rw [Nat.cast_ofNat] at leading
    rcases lt_or_gt_of_ne zero with negative | positive
    · -- A negative number this large is below every integer of the significand.
      rw [abs_of_neg negative] at leading power
      have := neg_abs_le (n : K)
      linarith
    · rw [abs_of_pos positive] at power
      exact (le_abs_self _).trans (inside.le.trans (power.trans (leading_le_roundBinary wide positive)))

theorem roundBinary_le {n : Int} (wide : 0 < precision) (held : |n| < 2 ^ precision) (above : x ≤ n) :
    roundBinary precision x ≤ n := by
  have mirrored : ((-n : Int) : K) ≤ roundBinary precision (-x) :=
    le_roundBinary wide (by rwa [abs_neg]) (by push_cast; linarith)
  rw [roundBinary_neg] at mirrored
  push_cast at mirrored
  linarith

theorem roundBinary_intCast {n : Int} (wide : 0 < precision) (held : |n| < 2 ^ precision) :
    roundBinary precision (n : K) = n :=
  le_antisymm (roundBinary_le wide held le_rfl) (le_roundBinary wide held le_rfl)

end

theorem roundHalfEven_le {x : K} {n : Int} (above : x ≤ n) : roundHalfEven x ≤ n := by
  have mirrored : -n ≤ roundHalfEven (-x) := le_roundHalfEven (by push_cast; linarith)
  rw [roundHalfEven_neg] at mirrored
  omega

section
variable {precision : Nat}

theorem lastBit_le {x : K} {e : Int} (nonzero : x ≠ 0) (below : |x| < 2 ^ (precision + e)) :
    lastBit precision x ≤ e := by
  have log : Int.log 2 |x| < precision + e :=
    (Int.lt_zpow_iff_log_lt (by decide) (abs_pos.mpr nonzero)).mp (by exact_mod_cast below)
  unfold lastBit
  omega

theorem Representable.round {x : K} (held : Representable precision x) : roundBinary precision x = x := by
  obtain ⟨m, e, bits, rfl⟩ := held
  by_cases zero : (m : K) * 2 ^ e = 0
  · rw [roundBinary, if_pos zero, zero]
  have positive : (0 : K) < 2 ^ e := zpow_pos (by norm_num) e
  have below : |(m : K) * 2 ^ e| < 2 ^ (precision + e) := by
    rw [abs_mul, abs_of_pos positive, zpow_add₀ (by norm_num), zpow_natCast]
    exact mul_lt_mul_of_pos_right (by exact_mod_cast bits) positive
  -- The last bit is not above the exponent, so in its scale the number is an integer.
  obtain ⟨shift, exponent⟩ := Int.le.dest (lastBit_le zero below)
  have scaled : (m : K) * 2 ^ e / 2 ^ lastBit precision ((m : K) * 2 ^ e) = (m * 2 ^ shift : Int) := by
    rw [mul_div_assoc, ← zpow_sub₀ (by norm_num), show e - lastBit precision ((m : K) * 2 ^ e) = (shift : Int) by omega,
      zpow_natCast]
    push_cast
    rfl
  rw [roundBinary, if_neg zero, scaled, roundHalfEven_intCast, ← scaled]
  exact div_mul_cancel₀ _ (zpow_pos (by norm_num) _).ne'

theorem abs_roundHalfEven_le {x : K} {n : Int} (bound : |x| ≤ n) : |roundHalfEven x| ≤ n := by
  obtain ⟨low, high⟩ := abs_le.mp bound
  exact abs_le.mpr ⟨le_roundHalfEven (by push_cast; exact low), roundHalfEven_le high⟩

/-- The rounding as a multiple of its last bit; a full significand carries into the next one. -/
theorem exists_roundBinary (precision : Nat) (x : K) :
    ∃ m : Int, |m| ≤ 2 ^ precision ∧ roundBinary precision x = m * 2 ^ lastBit precision x := by
  by_cases zero : x = 0
  · exact ⟨0, by positivity, by rw [roundBinary, if_pos zero, Int.cast_zero, zero_mul]⟩
  refine ⟨_, abs_roundHalfEven_le ?_, if_neg zero⟩
  have positive : (0 : K) < 2 ^ lastBit precision x := zpow_pos (by norm_num) _
  have below : |x| < 2 ^ (Int.log 2 |x| + 1) := by exact_mod_cast Int.lt_zpow_succ_log_self (by decide) |x|
  rw [abs_div, abs_of_pos positive, div_le_iff₀ positive]
  push_cast
  rw [← zpow_natCast, ← zpow_add₀ (by norm_num), lastBit]
  exact below.le.trans (by rw [add_sub_cancel])

theorem representable_roundBinary (wide : 0 < precision) (x : K) : Representable precision (roundBinary precision x) := by
  obtain ⟨m, bits, same⟩ := exists_roundBinary precision x
  rcases bits.lt_or_eq with inside | full
  · exact ⟨m, _, inside, same⟩
  · -- A full significand is half of it with the next exponent.
    obtain ⟨half, rfl⟩ : ∃ half, precision = half + 1 := ⟨precision - 1, by omega⟩
    have even : (2 : Int) ∣ m := by
      rw [← dvd_abs, full]
      exact dvd_pow_self 2 (Nat.succ_ne_zero half)
    obtain ⟨k, rfl⟩ := even
    refine ⟨k, lastBit (half + 1) x + 1, ?_, ?_⟩
    · rw [abs_mul, pow_succ] at full
      have power : (0 : Int) < 2 ^ half := by positivity
      rw [pow_succ]
      simp only [Nat.abs_ofNat] at full
      omega
    · rw [same, zpow_add₀ (by norm_num), zpow_one]
      push_cast
      ring

theorem lastBit_mul_zpow (precision : Nat) {x : K} (nonzero : x ≠ 0) (e : Int) :
    lastBit precision (x * 2 ^ e) = lastBit precision x + e := by
  have positive : (0 : K) < 2 ^ e := zpow_pos (by norm_num) e
  have size : 0 < |x| := abs_pos.mpr nonzero
  have scaled : |x * 2 ^ e| = |x| * 2 ^ e := by rw [abs_mul, abs_of_pos positive]
  have low : ((2 : Nat) : K) ^ (Int.log 2 |x| + e) ≤ |x * 2 ^ e| := by
    rw [scaled, zpow_add₀ (by norm_num)]
    exact mul_le_mul_of_nonneg_right (Int.zpow_log_le_self (by decide) size) positive.le
  have high : |x * 2 ^ e| < ((2 : Nat) : K) ^ (Int.log 2 |x| + e + 1) := by
    rw [scaled, add_right_comm, zpow_add₀ (by norm_num)]
    exact mul_lt_mul_of_pos_right (Int.lt_zpow_succ_log_self (by decide) |x|) positive
  have product : 0 < |x * 2 ^ e| := scaled ▸ mul_pos size positive
  have least := (Int.zpow_le_iff_le_log (by decide) product).mp low
  have most := (Int.lt_zpow_iff_log_lt (by decide) product).mp high
  unfold lastBit
  omega

/-- The exponent is not bounded, so rounding goes through a power of two. -/
theorem roundBinary_mul_zpow (precision : Nat) (x : K) (e : Int) :
    roundBinary precision (x * 2 ^ e) = roundBinary precision x * 2 ^ e := by
  by_cases zero : x = 0
  · simp [roundBinary, zero]
  have power : (2 : K) ^ e ≠ 0 := zpow_ne_zero e (by norm_num)
  have ratio : x * 2 ^ e / (2 ^ lastBit precision x * 2 ^ e) = x / 2 ^ lastBit precision x :=
    mul_div_mul_right x _ power
  rw [roundBinary, if_neg (mul_ne_zero zero power), roundBinary, if_neg zero, lastBit_mul_zpow precision zero,
    zpow_add₀ (by norm_num), ratio, mul_assoc]

theorem Representable.roundBinary_le (wide : 0 < precision) {x y : K} (held : Representable precision y) (below : x ≤ y) :
    roundBinary precision x ≤ y := by
  obtain ⟨m, e, bits, rfl⟩ := held
  have positive : (0 : K) < 2 ^ e := zpow_pos (by norm_num) e
  have scaled : x = x / 2 ^ e * 2 ^ e := (div_mul_cancel₀ x positive.ne').symm
  rw [scaled, roundBinary_mul_zpow]
  exact mul_le_mul_of_nonneg_right (Foundation.roundBinary_le wide bits ((div_le_iff₀ positive).mpr below)) positive.le

theorem roundBinary_eq_self_iff (wide : 0 < precision) {x : K} :
    roundBinary precision x = x ↔ Representable precision x :=
  ⟨fun same => same ▸ representable_roundBinary wide x, Representable.round⟩

omit [LinearOrder K] [IsStrictOrderedRing K] [FloorRing K] in
theorem representable_intCast {n : Int} (held : |n| < 2 ^ precision) : Representable precision (n : K) :=
  ⟨n, 0, held, by rw [zpow_zero, mul_one]⟩

theorem exists_roundBinary_intCast (precision : Nat) (n : Int) : ∃ m : Int, roundBinary precision (n : K) = m := by
  obtain ⟨m, -, same⟩ := exists_roundBinary precision (n : K)
  rcases le_or_gt (lastBit precision (n : K)) 0 with units | large
  · by_cases zero : (n : K) = 0
    · exact ⟨0, by rw [roundBinary, if_pos zero, Int.cast_zero]⟩
    obtain ⟨shift, exponent⟩ := Int.exists_eq_neg_ofNat units
    have scaled : (n : K) / 2 ^ lastBit precision (n : K) = (n * 2 ^ shift : Int) := by
      rw [exponent, zpow_neg, div_inv_eq_mul, zpow_natCast]
      push_cast
      rfl
    refine ⟨n, ?_⟩
    rw [roundBinary, if_neg zero, scaled, roundHalfEven_intCast, ← scaled]
    exact div_mul_cancel₀ _ (zpow_pos (by norm_num) _).ne'
  · obtain ⟨shift, exponent⟩ := Int.eq_ofNat_of_zero_le large.le
    exact ⟨m * 2 ^ shift, by rw [same, exponent, zpow_natCast]; push_cast; rfl⟩

omit [IsStrictOrderedRing K] in
theorem Representable.odd_lt {m e : Int} (held : Representable precision ((m : K) * 2 ^ e)) (odd : Odd m) :
    |m| < 2 ^ precision := by
  obtain ⟨n, f, bits, same⟩ := held
  rcases le_or_gt f e with below | above
  · obtain ⟨shift, rfl⟩ := Int.le.dest below
    have scaled : (m : K) * 2 ^ shift = n := by
      rw [zpow_add₀ (by norm_num), zpow_natCast, mul_left_comm, mul_comm] at same
      exact mul_right_cancel₀ (zpow_ne_zero f (by norm_num : (2 : K) ≠ 0)) same
    have whole : m * 2 ^ shift = n := by exact_mod_cast scaled
    refine lt_of_le_of_lt ?_ bits
    rw [← whole, abs_mul]
    exact le_mul_of_one_le_right (abs_nonneg m) (Int.one_le_abs (pow_ne_zero shift (by norm_num)))
  · -- A multiple of a higher power is even.
    obtain ⟨shift, rfl⟩ := Int.lt.dest above
    have scaled : (m : K) = n * 2 ^ shift.succ := by
      rw [zpow_add₀ (by norm_num), zpow_natCast, mul_left_comm, mul_comm (2 ^ e)] at same
      exact mul_right_cancel₀ (zpow_ne_zero e (by norm_num : (2 : K) ≠ 0)) same
    have whole : m = n * 2 ^ shift.succ := by exact_mod_cast scaled
    have even : Even m := by
      rw [whole]
      exact (Even.pow_of_ne_zero even_two (Nat.succ_ne_zero shift)).mul_left n
    exact absurd odd (Int.not_odd_iff_even.mpr even)

end

end Trigger.Foundation
