import Trigger.CJson.Parser
import Trigger.Foundation.Cells
import Trigger.Foundation.Printing

/-! The printer of cJSON, from a tree to the bytes of a file.

The output lies in cells that were allocated and may not have been written yet; writing
outside of them, or reading one that holds nothing, is a fault. Of the hooks the model
keeps the answers the allocator will give and the number of blocks in use.
-/

set_option autoImplicit false

namespace Trigger.CJson
open Foundation Config

def tab : UInt8 := 9
def lineFeed : UInt8 := 10
def space : UInt8 := 32

/-! ## printbuffer -/

/-- Whether the next requests are granted, and the blocks that were allocated and not freed;
behind the last answer every request is granted. -/
structure Hooks where
  answers : List Bool
  live : Int

def Hooks.granted (hooks : Hooks) : Bool := hooks.answers.headD true

def Hooks.asked (hooks : Hooks) : Hooks := { hooks with answers := hooks.answers.tail }

def Hooks.allocated (hooks : Hooks) : Hooks := { hooks with live := hooks.live + 1 }

def Hooks.deallocate (hooks : Hooks) : Hooks := { hooks with live := hooks.live - 1 }

structure PrintBuffer where
  buffer : Option (Cells UInt8)
  offset : Nat
  depth : Nat
  format : Bool
  hooks : Hooks

/-- What a function of the printer returns, and the buffer it leaves. -/
abbrev Print := PrintBuffer → Except Fault (Bool × PrintBuffer)

namespace Print

def success : Print := fun p => .ok (true, p)

/-- `if (!first) return false;` before the rest. -/
def andThen (first second : Print) : Print := fun p => do
  let (printed, p) ← first p
  if printed then second p else return (false, p)

def inOrder : List Print → Print
  | [] => success
  | first :: rest => first.andThen (inOrder rest)

end Print

def ensure (needed : Nat) : Print := fun p =>
  match p.buffer with
  | none => .ok (false, p)
  | some cells =>
    if 0 < cells.length ∧ cells.length ≤ p.offset then .ok (false, p)
    else if intMax.toNat < needed then .ok (false, p)
    else if needed + p.offset + 1 ≤ cells.length then .ok (true, p)
    else if intMax.toNat / 2 < needed + p.offset + 1 ∧ intMax.toNat < needed + p.offset + 1 then .ok (false, p)
    else
      let newsize := if intMax.toNat / 2 < needed + p.offset + 1 then intMax.toNat else (needed + p.offset + 1) * 2
      if p.hooks.granted then .ok (true, { p with buffer := some (cells.resize newsize), hooks := p.hooks.asked })
      else .ok (false, { p with buffer := none, hooks := p.hooks.asked.deallocate })

/-- Bytes written behind `output_pointer`, which `ensure` returned, from an index on. -/
def write (index : Nat) (bytes : Bytes) : Print := fun p =>
  match p.buffer with
  | none => .error .nullPointer
  | some cells => do return (true, { p with buffer := some (← cells.storeAll (p.offset + index) bytes) })

def forward (count : Nat) : Print := fun p => .ok (true, { p with offset := p.offset + count })

def deeper : Print := fun p => .ok (true, { p with depth := p.depth + 1 })

def shallower : Print := fun p => .ok (true, { p with depth := p.depth - 1 })

def strlen : Cells UInt8 → Except Fault Nat
  | [] => .error .outOfBounds
  | none :: _ => .error .indeterminate
  | some byte :: rest => if byte = 0 then .ok 0 else (strlen rest).map (· + 1)

def updateOffset : Print := fun p =>
  match p.buffer with
  | none => .ok (true, p)
  | some cells => do return (true, { p with offset := p.offset + (← strlen (cells.drop p.offset)) })

/-- Room is made, bytes are written, and the offset goes on behind some of them. -/
def append (needed : Nat) (bytes : Bytes) (count : Nat) : Print :=
  Print.inOrder [ensure needed, write 0 bytes, forward count]

/-! ## print_number, print_string_ptr -/

/-- An `int`: the buffer of 26 bytes takes it, and no decimal point has to be replaced. -/
def printNumber (valueint : Int) : Print := fun p => do
  let numberBuffer : CharArray 26 ← strcpy (numeralText valueint)
  let length := numberBuffer.val.length
  append (length + 1) (numberBuffer.val ++ [0]) length p

def escapeLetter (byte : UInt8) : Option UInt8 :=
  if byte = backslash then some backslash
  else if byte = quote then some quote
  else if byte = 8 then some 98
  else if byte = 12 then some 102
  else if byte = 10 then some 110
  else if byte = 13 then some 114
  else if byte = 9 then some 116
  else none

/-- How many bytes more than one a byte takes. -/
def escapeCharacters (byte : UInt8) : Nat :=
  if (escapeLetter byte).isSome then 1 else if byte < 32 then 5 else 0

def lowerHex (digit : Nat) : UInt8 := UInt8.ofNat (if digit < 10 then 48 + digit else 87 + digit)

def codepointText (byte : UInt8) : Bytes := [117, 48, 48, lowerHex (byte.toNat / 16), lowerHex (byte.toNat % 16)]

/-- The loop that copies the string, with `output_pointer` as an index. -/
def copyString : Bytes → Nat → Cells UInt8 → Except Fault (Cells UInt8)
  | [], _, cells => .ok cells
  | byte :: rest, pointer, cells =>
    if 31 < byte ∧ byte ≠ quote ∧ byte ≠ backslash then do
      copyString rest (pointer + 1) (← cells.store pointer byte)
    else do
      let cells ← cells.store pointer backslash
      match escapeLetter byte with
      | some letter => copyString rest (pointer + 2) (← cells.store (pointer + 1) letter)
      -- The terminator of `sprintf` is overwritten by what comes next.
      | none => copyString rest (pointer + 6) (← cells.storeAll (pointer + 1) (codepointText byte ++ [0]))

def copyBehindQuote (input : Bytes) : Print := fun p =>
  match p.buffer with
  | none => .error .nullPointer
  | some cells => do return (true, { p with buffer := some (← copyString input (p.offset + 1) cells) })

def printStringPtr (input : Bytes) : Print :=
  let escapes := (input.map escapeCharacters).sum
  let outputLength := input.length + escapes
  (ensure (outputLength + 3)).andThen
    (if escapes = 0 then write 0 (quote :: (input ++ [quote, 0]))
    else Print.inOrder [write 0 [quote], copyBehindQuote input, write (outputLength + 1) [quote, 0]])

/-! ## print_value -/

/-- `", "` or `","`. -/
def separator (format : Bool) : Bytes := if format then [comma, space] else [comma]

def printSeparator : Print := fun p =>
  let length := (separator p.format).length
  append (length + 1) (separator p.format ++ [0]) length p

def printElements (printInner : Json → Print) : List Json → Print
  | [] => Print.success
  | item :: rest =>
    Print.inOrder [printInner item, updateOffset, if rest.isEmpty then Print.success else printSeparator, printElements printInner rest]

def printArray (printInner : Json → Print) (items : List Json) : Print := fun p =>
  if nestingLimit ≤ p.depth then .ok (false, p)
  else Print.inOrder [append 1 [openBracket] 1, deeper, printElements printInner items, append 2 [closeBracket, 0] 0, shallower] p

def opening (format : Bool) : Bytes := if format then [openBrace, lineFeed] else [openBrace]

def indent (format : Bool) (depth : Nat) : Bytes := if format then List.replicate depth tab else []

def assign (format : Bool) : Bytes := if format then [colon, tab] else [colon]

/-- The comma if it is not the last, and the end of the line. -/
def ending (format last : Bool) : Bytes := (if last then [] else [comma]) ++ if format then [lineFeed] else []

def printMembers (printInner : Json → Print) : List (Bytes × Json) → Print
  | [] => Print.success
  | (name, value) :: rest => Print.inOrder [
      fun p => if p.format then append p.depth (indent p.format p.depth) p.depth p else Print.success p,
      printStringPtr name, updateOffset,
      fun p => append (assign p.format).length (assign p.format) (assign p.format).length p,
      printInner value, updateOffset,
      fun p =>
        let end_ := ending p.format rest.isEmpty
        append (end_.length + 1) (end_ ++ [0]) end_.length p,
      printMembers printInner rest]

def printObject (printInner : Json → Print) (members : List (Bytes × Json)) : Print := fun p =>
  if nestingLimit ≤ p.depth then .ok (false, p)
  else Print.inOrder [
    append ((opening p.format).length + 1) (opening p.format) (opening p.format).length, deeper,
    printMembers printInner members,
    fun p => append (if p.format then p.depth + 1 else 2) (indent p.format (p.depth - 1) ++ [closeBrace, 0]) 0 p,
    shallower] p

/-- The body of `print_value`, with the printer of the values inside. -/
def printValueWith (printInner : Json → Print) : Json → Print
  | .null => append 5 (text "null" ++ [0]) 0
  | .false => append 6 (text "false" ++ [0]) 0
  | .true => append 5 (text "true" ++ [0]) 0
  | .number valueint => printNumber valueint
  | .string valuestring => printStringPtr valuestring
  | .array items => printArray printInner items
  | .object members => printObject printInner members

/-- The recursion to a depth of nesting; the limit ends it before the last level. -/
def printValueAt : Nat → Json → Print
  | 0 => fun _ p => .ok (false, p)
  | level + 1 => printValueWith (printValueAt level)

def printValue (item : Json) : Print := fun p => printValueAt (nestingLimit + 1 - p.depth) item p

def defaultBufferSize : Nat := 256

/-- The memory of the printed string, or `NULL`. -/
def print (item : Json) (format : Bool) (hooks : Hooks) : Except Fault (Option (Cells UInt8) × Hooks) := do
  if ¬ hooks.granted then return (none, hooks.asked)
  let (printed, p) ← Print.inOrder [printValue item, updateOffset]
    ⟨some (Cells.unwritten defaultBufferSize), 0, 0, format, hooks.asked.allocated⟩
  match printed, p.buffer with
  | true, some cells =>
    -- `realloc` to the length of the text and its terminator.
    if p.hooks.granted then return (some (cells.resize (p.offset + 1)), p.hooks.asked)
    else return (none, p.hooks.asked.deallocate)
  | true, none => .error .nullPointer
  | false, some _ => return (none, p.hooks.deallocate)
  | false, none => return (none, p.hooks)

def escaped (byte : UInt8) : Bytes :=
  match escapeLetter byte with
  | some letter => [backslash, letter]
  | none => if byte < 32 then backslash :: codepointText byte else [byte]

def renderString (content : Bytes) : Bytes := quote :: (content.flatMap escaped ++ [quote])

mutual
/-- What is printed for a tree whose line is indented this deep. -/
def render (format : Bool) (depth : Nat) : Json → Bytes
  | .null => text "null"
  | .false => text "false"
  | .true => text "true"
  | .number valueint => numeralText valueint
  | .string valuestring => renderString valuestring
  | .array items => openBracket :: (renderElements format (depth + 1) items ++ [closeBracket])
  | .object members => opening format ++ (renderMembers format (depth + 1) members ++ (indent format depth ++ [closeBrace]))

def renderElements (format : Bool) (depth : Nat) : List Json → Bytes
  | [] => []
  | item :: rest =>
    render format depth item ++ ((if rest.isEmpty then [] else separator format) ++ renderElements format depth rest)

def renderMembers (format : Bool) (depth : Nat) : List (Bytes × Json) → Bytes
  | [] => []
  | member :: rest => renderMember format depth member ++ (ending format rest.isEmpty ++ renderMembers format depth rest)

def renderMember (format : Bool) (depth : Nat) : Bytes × Json → Bytes
  | (name, value) => indent format depth ++ (renderString name ++ (assign format ++ render format depth value))
end

end Trigger.CJson
