import Mathlib.Algebra.Order.Field.Rat
import Mathlib.Data.Rat.Floor

/-! Numbers of the floating-point computations.

The program adds, subtracts and compares them, starts from constants and cuts
them to integers; nothing else of their arithmetic is used. The rationals are
the exact instance.
-/

set_option autoImplicit false

namespace Trigger.Foundation

class Scalar (K : Type) extends Add K, Sub K, LT K where
  decideLt : DecidableLT K
  /-- The value of a literal or of a converted integer. -/
  ofRat : Rat → K
  /-- The conversion `(int)`, towards zero. -/
  trunc : K → Int

instance Scalar.decidableLT {K : Type} [Scalar K] : DecidableLT K := Scalar.decideLt

def truncate (q : Rat) : Int := if 0 ≤ q then ⌊q⌋ else ⌈q⌉

instance : Scalar Rat where
  decideLt := inferInstance
  ofRat := id
  trunc := truncate

variable {K : Type} [Scalar K]

def fminf (a b : K) : K := if b < a then b else a

end Trigger.Foundation
