import Trigger.Config.Texts
import Trigger.Editor.Identity
import Trigger.Editor.Open

/-! The strings of a level on their way through the editor: from the file to the fields of
the loader, from the palette of the file and the names of the directory to the palette of
the editor, and from there to the saved file.
-/

set_option autoImplicit false

namespace Trigger.Editor
open Foundation Config

/-- "../" fits before the path, where `MergeObjectPalette` puts it. -/
def RoomForParent (id : Int) (path : Bytes) : Prop :=
  id ≠ 0 → id ≠ 1 → text "resources/" <+: path → path.length < 253

/-- An object in memory behind the loader. A member that the file does not give holds anything,
but an id or a path that is not given makes no path of the object too long. -/
structure Holds (stored : LoadedObject) (object : ObjectConfig) : Prop where
  id : ∀ id ∈ stored.id, object.id = id
  name : ∀ name ∈ stored.name, object.name = name
  texture : ∀ texture ∈ stored.texture, object.texture = texture
  entity : ∀ entity ∈ stored.entity, object.entity = entity
  leftOut : stored.id = none ∨ stored.texture = none → RoomForParent object.id object.texture.val

end Trigger.Editor
