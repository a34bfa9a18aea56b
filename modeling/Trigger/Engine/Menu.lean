import Trigger.Engine.Geometry
import Trigger.Foundation.Memory

/-! The menus: buttons, the list of levels, and the level they select. -/

set_option autoImplicit false

namespace Trigger.Engine
open Foundation

/-- The place of a button, in whole pixels. -/
structure Button where
  x : Int
  y : Int
  width : Int
  height : Int

/-- The variables of the menu module; the buttons are placed by `menu_init`. -/
structure Menu where
  startButton : Button
  exitButton : Button
  resumeButton : Button
  levelFiles : List Bytes
  levelSelectIndex : Nat
  levelSelectActive : Bool
  selectedLevelPath : CharArray 256

variable {K : Type} [Scalar K]

abbrev Click (K : Type) := Option (Vector2 K)

def clicked (click : Click K) (box : Rectangle K) : Prop :=
  ∃ point ∈ click, CheckCollisionPointRec point box

instance (click : Click K) (box : Rectangle K) : Decidable (clicked click box) :=
  match click with
  | none => isFalse (by rintro ⟨_, member, _⟩; cases member)
  | some point =>
    decidable_of_iff (CheckCollisionPointRec point box) (by
      constructor
      · exact fun inside => ⟨point, rfl, inside⟩
      · rintro ⟨_, member, inside⟩
        cases member
        exact inside)

def checkButtonClick (click : Click K) (button : Button) : Prop :=
  clicked click ⟨ofInt button.x, ofInt button.y, ofInt button.width, ofInt button.height⟩

instance (click : Click K) (button : Button) : Decidable (checkButtonClick click button) :=
  inferInstanceAs (Decidable (clicked _ _))

def levelPath (name : Bytes) : CharArray 256 :=
  truncated 256 room256 (text "maps/" ++ name ++ text ".json")

def itemHeight : Int := 24

def itemRect (x y width : Int) (i : Nat) : Rectangle K :=
  ⟨ofInt (x + 10), ofInt (y + 30 + i * itemHeight), ofInt (width - 20), ofInt (itemHeight - 2)⟩

def selectItem (x y width : Int) (click : Click K) (menu : Menu) (entry : Bytes × Nat) : Menu :=
  if clicked click (itemRect x y width entry.2) then
    { menu with
      levelSelectIndex := entry.2
      selectedLevelPath := levelPath entry.1
      levelSelectActive := false }
  else menu

def drawLevelSelect (x y width height : Int) (click : Click K) (menu : Menu) : Menu :=
  if clicked click ⟨ofInt (x + width - 50), ofInt (y + 2), ofInt 45, ofInt 20⟩ then
    { menu with levelSelectActive := false }
  else
    let itemsVisible := min (height.tdiv itemHeight).toNat menu.levelFiles.length
    (menu.levelFiles.take itemsVisible).zipIdx.foldl (selectItem x y width click) menu

/-- The list as the start menu draws it. -/
def Menu.pick (menu : Menu) (click : Click K) : Menu := drawLevelSelect 10 10 220 320 click menu

def Menu.openList (menu : Menu) : Menu :=
  { menu with
    levelSelectActive := true
    levelSelectIndex := 0
    selectedLevelPath := CharArray.empty room256 }

end Trigger.Engine
