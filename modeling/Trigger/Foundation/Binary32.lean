import Trigger.Foundation.Rounding
import Trigger.Foundation.Scalar

/-! The `float` of the program: rationals with 24 significant bits, each result rounded.

The exponent is not bounded. A sum of such numbers is never too small for the format, and
the program adds to none that is near the largest. The two zeros are one, since nothing
of the program tells them apart.
-/

set_option autoImplicit false

namespace Trigger.Foundation

@[ext] structure Binary32 where
  value : Rat
  held : Representable 24 value

namespace Binary32

instance : DecidableEq Binary32 := fun a b => decidable_of_iff (a.value = b.value) Binary32.ext_iff.symm

def round (exact : Rat) : Binary32 := ⟨roundBinary 24 exact, representable_roundBinary (by decide) exact⟩

instance : Scalar Binary32 where
  add a b := round (a.value + b.value)
  sub a b := round (a.value - b.value)
  lt a b := a.value < b.value
  decideLt a b := inferInstanceAs (Decidable (a.value < b.value))
  ofRat := round
  trunc a := truncate a.value

theorem round_value {exact : Rat} (held : Representable 24 exact) : (round exact).value = exact := held.round

theorem lt_iff {a b : Binary32} : a < b ↔ a.value < b.value := Iff.rfl

theorem sub_value {a b : Binary32} (held : Representable 24 (a.value - b.value)) :
    (a - b).value = a.value - b.value := held.round

theorem ofRat_value {exact : Rat} (held : Representable 24 exact) : (Scalar.ofRat exact : Binary32).value = exact :=
  held.round

end Binary32

end Trigger.Foundation
