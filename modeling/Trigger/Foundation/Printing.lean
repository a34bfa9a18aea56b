import Trigger.Foundation.Scanning
import Mathlib.Data.Nat.Digits.Defs
import Mathlib.Data.Nat.Digits.Lemmas

/-! Numbers written as text: the conversions of `printf` that the scanner reads back. -/

set_option autoImplicit false

namespace Trigger.Foundation

def digitByte (digit : Nat) : UInt8 := UInt8.ofNat (48 + digit)

def decimalText (n : Nat) : Bytes := if n = 0 then [digitByte 0] else (Nat.digits 10 n).reverse.map digitByte

/-- The conversion `%d`. -/
def numeralText (n : Int) : Bytes := if n < 0 then minus :: decimalText n.natAbs else decimalText n.natAbs

theorem isdigit_digitByte {digit : Nat} (small : digit < 10) : isdigit (digitByte digit) = true := by
  interval_cases digit <;> decide

theorem appendDigit_digitByte (value : Nat) {digit : Nat} (small : digit < 10) :
    appendDigit value (digitByte digit) = 10 * value + digit := by
  interval_cases digit <;> rfl

theorem decimalText_digits (n : Nat) : ∀ byte ∈ decimalText n, isdigit byte = true := by
  unfold decimalText
  split_ifs with zero
  · simp [isdigit_digitByte]
  · intro byte member
    obtain ⟨digit, within, rfl⟩ := List.mem_map.mp member
    exact isdigit_digitByte (Nat.digits_lt_base (by decide) (List.mem_reverse.mp within))

theorem decimalText_ne_nil (n : Nat) : decimalText n ≠ [] := by
  unfold decimalText
  split_ifs with zero
  · exact List.cons_ne_nil _ _
  · simpa using Nat.digits_ne_nil_iff_ne_zero.mpr zero

theorem decimal_digitBytes {digits : List Nat} (small : ∀ digit ∈ digits, digit < 10) :
    decimal (digits.reverse.map digitByte) = Nat.ofDigits 10 digits := by
  induction digits with
  | nil => rfl
  | cons digit rest ih =>
    obtain ⟨first, others⟩ := List.forall_mem_cons.mp small
    have step := appendDigit_digitByte (decimal (rest.reverse.map digitByte)) first
    rw [List.reverse_cons, List.map_append, decimal, List.foldl_append]
    change appendDigit (decimal (rest.reverse.map digitByte)) (digitByte digit) = _
    rw [step, ih others, Nat.ofDigits_cons, Nat.add_comm]

theorem decimal_decimalText (n : Nat) : decimal (decimalText n) = n := by
  unfold decimalText
  split_ifs with zero
  · rw [zero]
    rfl
  · rw [decimal_digitBytes (fun digit within => Nat.digits_lt_base (by decide) within), Nat.ofDigits_digits]

theorem numeralText_numeral (n : Int) : Numeral (numeralText n) n := by
  have nonempty := decimalText_ne_nil n.natAbs
  have digits := decimalText_digits n.natAbs
  have value := decimal_decimalText n.natAbs
  unfold numeralText
  split_ifs with negative
  · have spelled := Numeral.negative nonempty digits
    rwa [value, signed, if_pos rfl, show -(n.natAbs : Int) = n by omega] at spelled
  · have spelled := Numeral.unsigned nonempty digits
    rwa [value, signed, if_neg (by decide), show (n.natAbs : Int) = n by omega] at spelled

theorem length_decimalText_le_iff {n count : Nat} (positive : 0 < count) :
    (decimalText n).length ≤ count ↔ n < 10 ^ count := by
  unfold decimalText
  split_ifs with zero
  · exact iff_of_true positive (zero ▸ Nat.pow_pos (by decide))
  · rw [List.length_map, List.length_reverse]
    exact Nat.digits_length_le_iff (by decide) n

end Trigger.Foundation
