import Trigger.Foundation.Fallible
import Trigger.Foundation.Memory

/-! `clear_str`: the part of a chunk before a prompt, without escape sequences
and control bytes.

The scan works on memory, the chunk with its terminator; reading what lies behind
the terminator is a fault, its bytes are indeterminate.
-/

set_option autoImplicit false

namespace Trigger.Terminal
open Foundation

def newline : UInt8 := 10
def escape : UInt8 := 27
def hash : UInt8 := 35
def bracket : UInt8 := 91
def letterM : UInt8 := 109
def tilde : UInt8 := 126

/-- A byte from 128 on is a negative `char`, so it is not one of these. -/
def IsControl (byte : UInt8) : Prop := byte < 32 ∧ byte ≠ newline

instance (byte : UInt8) : Decidable (IsControl byte) := inferInstanceAs (Decidable (_ ∧ _))

/-- `strchr` within the string and a terminator stored at the place it finds. -/
def terminateAt (byte : UInt8) : Bytes → Bytes
  | [] => []
  | head :: rest =>
    if head = 0 then head :: rest
    else if head = byte then 0 :: rest
    else head :: terminateAt byte rest

/-- The bytes the loop writes, from `src` on. -/
def clearScan : Bool → Bytes → Except Fault Bytes
  -- The scan has passed the terminator.
  | _, [] => .error .indeterminate
  | true, byte :: rest => if byte = 0 then .ok [] else clearScan (byte ≠ letterM) rest
  | false, [byte] => if byte = 0 then .ok [] else .error .indeterminate
  | false, byte :: next :: rest =>
    if byte = 0 then .ok []
    -- An escape sequence is dropped up to its letter m.
    else if byte = escape ∧ next = bracket then clearScan true rest
    -- A control byte is stepped over, and the byte behind it is copied unseen.
    else if IsControl byte then (clearScan false rest).map (next :: ·)
    else (clearScan false (next :: rest)).map (byte :: ·)

def clearStr (chunk : Bytes) : Except Fault Bytes :=
  (clearScan false (terminateAt hash (terminateAt tilde (chunk ++ [0])))).map cString

end Trigger.Terminal
