import Trigger.Config.Loader

/-! The texts of a level file and the fields the loader copies them to.

Each copy is a `strcpy` to a field of 256 bytes. An item that is no string stops the
loader, since its `valuestring` is the null pointer, and a string of 256 bytes or more
is written over the end of its field.
-/

set_option autoImplicit false

namespace Trigger.Config
open Foundation

end Trigger.Config
