import Trigger.Foundation.Scalar

/-! Points, rectangles and raylib's collision checks. -/

set_option autoImplicit false

namespace Trigger.Engine
open Foundation

structure Vector2 (K : Type) where
  x : K
  y : K
  deriving DecidableEq

structure Rectangle (K : Type) where
  x : K
  y : K
  width : K
  height : K

variable {K : Type} [Scalar K]

def ofInt (value : Int) : K := Scalar.ofRat value

def vector2Zero : Vector2 K := ⟨ofInt 0, ofInt 0⟩

/-- `CheckCollisionRecs`: the rectangles overlap strictly on both axes. -/
def CheckCollisionRecs (rec1 rec2 : Rectangle K) : Prop :=
  (rec1.x < rec2.x + rec2.width ∧ rec2.x < rec1.x + rec1.width) ∧
    (rec1.y < rec2.y + rec2.height ∧ rec2.y < rec1.y + rec1.height)

def CheckCollisionPointRec (point : Vector2 K) (box : Rectangle K) : Prop :=
  ¬ point.x < box.x ∧ point.x < box.x + box.width ∧ ¬ point.y < box.y ∧ point.y < box.y + box.height

instance (rec1 rec2 : Rectangle K) : Decidable (CheckCollisionRecs rec1 rec2) :=
  inferInstanceAs (Decidable (_ ∧ _))

instance (point : Vector2 K) (box : Rectangle K) : Decidable (CheckCollisionPointRec point box) :=
  inferInstanceAs (Decidable (_ ∧ _))

end Trigger.Engine
