import Trigger.Foundation.Memory

/-! The parsed JSON tree as the loader sees it, with the accessors of cJSON.

`valueint` of a number is already saturated to `int` by the parser. A missing
item is `none`, the null pointer of the accessors.
-/

set_option autoImplicit false

namespace Trigger.Config
open Foundation

inductive Json where
  | null
  | false
  | true
  | number (valueint : Int)
  | string (valuestring : Bytes)
  | array (items : List Json)
  | object (members : List (Bytes × Json))

namespace Json

def tolower (byte : UInt8) : UInt8 := if 65 ≤ byte ∧ byte ≤ 90 then byte + 32 else byte

def caseInsensitiveEq (left right : Bytes) : Bool := left.map tolower == right.map tolower

/-- The items of an array carry no name, so only members of an object are found. -/
def getObjectItem (json : Json) (name : Bytes) : Option Json :=
  match json with
  | .object members => (members.find? fun member => caseInsensitiveEq name member.1).map (·.2)
  | _ => none

def valueint : Json → Int
  | .number value => value
  | .true => 1
  | _ => 0

def valuestring : Json → Option Bytes
  | .string value => some value
  | _ => Option.none

end Json

end Trigger.Config
