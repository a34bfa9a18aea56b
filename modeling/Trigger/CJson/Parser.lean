import Trigger.Config.Json
import Trigger.Foundation.Rounding
import Trigger.Foundation.Scalar
import Trigger.Foundation.Scanning

/-! The parser of cJSON, from the bytes of a file to the tree of the loader.

Pointers into the text are offsets of the buffer. A read that the code guards asks the
buffer for a byte that may be missing; a read without a guard faults outside of it. A
failed parse is `none`, and the position of the error is not kept. Allocations succeed.
-/

set_option autoImplicit false

namespace Trigger.CJson
open Foundation Config

def quote : UInt8 := 34
def backslash : UInt8 := 92
def comma : UInt8 := 44
def colon : UInt8 := 58
def openBracket : UInt8 := 91
def closeBracket : UInt8 := 93
def openBrace : UInt8 := 123
def closeBrace : UInt8 := 125
def point : UInt8 := 46

def nestingLimit : Nat := 1000

/-! ## parse_buffer -/

structure ParseBuffer where
  content : Bytes
  offset : Nat
  depth : Nat

namespace ParseBuffer

def length (buffer : ParseBuffer) : Nat := buffer.content.length

def canAccessAtIndex (buffer : ParseBuffer) (index : Nat) : Prop := buffer.offset + index < buffer.length

instance (buffer : ParseBuffer) (index : Nat) : Decidable (buffer.canAccessAtIndex index) :=
  inferInstanceAs (Decidable (_ < _))

/-- The bytes from `buffer_at_offset` to the end of the buffer. -/
def atOffset (buffer : ParseBuffer) : Bytes := buffer.content.drop buffer.offset

/-- `buffer_at_offset(buffer)[index]`. -/
def byteAt (buffer : ParseBuffer) (index : Nat) : Except Fault UInt8 :=
  match buffer.content[buffer.offset + index]? with
  | some byte => .ok byte
  | none => .error .outOfBounds

/-- `can_access_at_index(buffer, 0) && buffer_at_offset(buffer)[0] == byte`. -/
def shows (buffer : ParseBuffer) (byte : UInt8) : Prop := buffer.atOffset.head? = some byte

instance (buffer : ParseBuffer) (byte : UInt8) : Decidable (buffer.shows byte) :=
  inferInstanceAs (Decidable (_ = _))

def advance (buffer : ParseBuffer) (count : Nat) : ParseBuffer := { buffer with offset := buffer.offset + count }

def back (buffer : ParseBuffer) : ParseBuffer := { buffer with offset := buffer.offset - 1 }

end ParseBuffer

/-- At the end of the buffer the last byte is taken back. -/
def bufferSkipWhitespace (buffer : ParseBuffer) : ParseBuffer :=
  if buffer.canAccessAtIndex 0 then
    let skipped := buffer.advance (buffer.atOffset.takeWhile (· ≤ 32)).length
    if skipped.offset = skipped.length then skipped.back else skipped
  else buffer

def skipUtf8Bom (buffer : ParseBuffer) : ParseBuffer :=
  if buffer.canAccessAtIndex 4 ∧ [0xEF, 0xBB, 0xBF] <+: buffer.atOffset then buffer.advance 3 else buffer

/-! ## parse_number -/

def isNumberByte (byte : UInt8) : Bool :=
  isdigit byte ∨ byte = plus ∨ byte = minus ∨ byte = 101 ∨ byte = 69 ∨ byte = point

/-- An exponent without a digit is none and takes nothing. -/
def scanExponent : Bytes → Int × Bytes
  | [] => (0, [])
  | mark :: rest =>
    if mark = 101 ∨ mark = 69 then
      let (negative, body) := splitSign rest
      let digits := body.takeWhile isdigit
      if digits = [] then (0, mark :: rest) else (signed negative (decimal digits), body.dropWhile isdigit)
    else (0, mark :: rest)

def scanFraction : Bytes → Bytes × Bytes
  | [] => ([], [])
  | mark :: rest => if mark = point then (rest.takeWhile isdigit, rest.dropWhile isdigit) else ([], mark :: rest)

def doublePrecision : Nat := 53

/-- `strtod` of a string of number bytes: the nearest `double` and how many bytes it took.
The exponent is not bounded; where that of `double` ends, the number is saturated or cut to
zero in any case. -/
def strtod (source : Bytes) : Option (Rat × Nat) :=
  let (negative, body) := splitSign source
  let whole := body.takeWhile isdigit
  let (fraction, afterFraction) := scanFraction (body.dropWhile isdigit)
  let (exponent, rest) := scanExponent afterFraction
  if whole = [] ∧ fraction = [] then none
  else
    let significand : Rat := signed negative (decimal (whole ++ fraction))
    some (roundBinary doublePrecision (significand * 10 ^ (exponent - fraction.length)), source.length - rest.length)

def intMax : Int := 2147483647
def intMin : Int := -2147483648

/-- `valueint` of a number. -/
def saturated (number : Rat) : Int :=
  if (intMax : Rat) ≤ number then intMax
  else if number ≤ intMin then intMin
  else truncate number

def parseNumber (buffer : ParseBuffer) : Option (Json × ParseBuffer) :=
  (strtod (buffer.atOffset.takeWhile isNumberByte)).map fun (number, used) =>
    (.number (saturated number), buffer.advance used)

/-! ## parse_string -/

/-- Writes behind the bytes that an allocation of `capacity` bytes holds so far. -/
def put (capacity : Nat) (output bytes : Bytes) : Except Fault Bytes :=
  if output.length + bytes.length ≤ capacity then .ok (output ++ bytes) else .error .outOfBounds

/-- What the bytes behind the opening quote show of the string: its length, and how many of its
bytes are taken off for escapes; none when the buffer ends before the closing quote. -/
def closingQuote : Bytes → Option (Nat × Nat)
  | [] => none
  | byte :: rest =>
    if byte = quote then some (0, 0)
    else if byte = backslash then
      match rest with
      | [] => none
      | _ :: more => (closingQuote more).map fun (length, skipped) => (length + 2, skipped + 1)
    else (closingQuote rest).map fun (length, skipped) => (length + 1, skipped)

def hexDigit (byte : UInt8) : Option Nat :=
  if 48 ≤ byte ∧ byte ≤ 57 then some (byte.toNat - 48)
  else if 65 ≤ byte ∧ byte ≤ 70 then some (10 + byte.toNat - 65)
  else if 97 ≤ byte ∧ byte ≤ 102 then some (10 + byte.toNat - 97)
  else none

/-- Four hexadecimal digits; zero when one of them is none. -/
def parseHex4 : Bytes → Except Fault Nat
  | a :: b :: c :: d :: _ =>
    match hexDigit a, hexDigit b, hexDigit c, hexDigit d with
    | some a, some b, some c, some d => .ok (((a * 16 + b) * 16 + c) * 16 + d)
    | _, _, _, _ => .ok 0
  | _ => .error .outOfBounds

def continuation (codepoint : Nat) : UInt8 := UInt8.ofNat ((codepoint ||| 0x80) &&& 0xBF)

def encodeUtf8 (codepoint : Nat) : Option Bytes :=
  if codepoint < 0x80 then some [UInt8.ofNat (codepoint &&& 0x7F)]
  else if codepoint < 0x800 then
    some [UInt8.ofNat ((codepoint >>> 6 ||| 0xC0) &&& 0xFF), continuation codepoint]
  else if codepoint < 0x10000 then
    some [UInt8.ofNat ((codepoint >>> 12 ||| 0xE0) &&& 0xFF), continuation (codepoint >>> 6), continuation codepoint]
  else if codepoint ≤ 0x10FFFF then
    some [UInt8.ofNat ((codepoint >>> 18 ||| 0xF0) &&& 0xFF), continuation (codepoint >>> 12),
      continuation (codepoint >>> 6), continuation codepoint]
  else none

/-- One or two sequences `\uXXXX` with `available` bytes before the end of the string: how many
bytes they take, and their encoding; none where the source returns zero. -/
def utf16LiteralToUtf8 (source : Bytes) (available : Nat) : Except Fault (Option (Nat × Bytes)) := do
  if available < 6 then return none
  let firstCode ← parseHex4 (source.drop 2)
  if 0xDC00 ≤ firstCode ∧ firstCode ≤ 0xDFFF then return none
  if 0xD800 ≤ firstCode ∧ firstCode ≤ 0xDBFF then
    if available - 6 < 6 then return none
    match source.drop 6 with
    | slash :: letter :: second =>
      if slash = backslash ∧ letter = 117 then
        let secondCode ← parseHex4 second
        if secondCode < 0xDC00 ∨ 0xDFFF < secondCode then return none
        return (encodeUtf8 (0x10000 + ((firstCode &&& 0x3FF) <<< 10 ||| secondCode &&& 0x3FF))).map fun bytes => (12, bytes)
      else return none
    | _ => .error .outOfBounds
  else return (encodeUtf8 firstCode).map fun bytes => (6, bytes)

def simpleEscape (letter : UInt8) : Option UInt8 :=
  if letter = 98 then some 8
  else if letter = 102 then some 12
  else if letter = 110 then some 10
  else if letter = 114 then some 13
  else if letter = 116 then some 9
  else if letter = quote ∨ letter = backslash ∨ letter = 47 then some letter
  else none

/-- The loop over the string literal; `left` bytes lie between `input_pointer` and `input_end`. -/
def unescape (capacity : Nat) (source : Bytes) (left : Nat) (output : Bytes) : Except Fault (Option Bytes) :=
  if left = 0 then .ok (some output)
  else
    match source with
    | [] => .error .outOfBounds
    | byte :: rest =>
      if byte ≠ backslash then do
        let output ← put capacity output [byte]
        unescape capacity rest (left - 1) output
      else
        match rest with
        | [] => .error .outOfBounds
        | letter :: behind =>
          match simpleEscape letter with
          | some byte => do
            let output ← put capacity output [byte]
            unescape capacity behind (left - 2) output
          | none =>
            if letter = 117 then do
              match ← utf16LiteralToUtf8 (byte :: letter :: behind) left with
              | none => return none
              | some (0, _) => return none
              | some (length + 1, bytes) =>
                let output ← put capacity output bytes
                unescape capacity (rest.drop length) (left - (length + 1)) output
            else .ok none
termination_by left

def parseString (buffer : ParseBuffer) : Except Fault (Option (Bytes × ParseBuffer)) := do
  if (← buffer.byteAt 0) ≠ quote then return none
  match closingQuote (buffer.atOffset.drop 1) with
  | none => return none
  | some (length, skipped) =>
    let capacity := length + 1 - skipped + 1
    match ← unescape capacity (buffer.atOffset.drop 1) length [] with
    | none => return none
    | some output =>
      let terminated ← put capacity output [0]
      return some (cString terminated, buffer.advance (length + 2))

/-! ## parse_value -/

abbrev Parse (A : Type) := ParseBuffer → Except Fault (Option (A × ParseBuffer))

/-- The loop over the elements; each round starts at the byte before its element. -/
def parseElements {A : Type} (parseElement : Parse A) : Nat → List A → Parse (List A)
  | 0, _, _ => .error .outOfBounds
  | fuel + 1, items, buffer => do
    match ← parseElement buffer with
    | none => return none
    | some (item, buffer) =>
      let buffer := bufferSkipWhitespace buffer
      if buffer.shows comma then parseElements parseElement fuel (items ++ [item]) buffer
      else return some (items ++ [item], buffer)

/-- What arrays and objects share: the nesting limit, the brackets, and the end of the elements. -/
def parseBracketed {A : Type} (opens : ParseBuffer → Except Fault Bool) (closing : UInt8) (parseElement : Parse A) :
    Parse (List A) := fun buffer => do
  if nestingLimit ≤ buffer.depth then return none
  let buffer := { buffer with depth := buffer.depth + 1 }
  if ¬ (← opens buffer) then return none
  let buffer := bufferSkipWhitespace (buffer.advance 1)
  if buffer.shows closing then return some ([], { buffer.advance 1 with depth := buffer.depth - 1 })
  if ¬ buffer.canAccessAtIndex 0 then return none
  -- A round takes a byte at least, so the bytes of the buffer bound the rounds.
  match ← parseElements parseElement (buffer.length + 1) [] buffer.back with
  | none => return none
  | some (items, buffer) =>
    if ¬ buffer.shows closing then return none
    return some (items, { buffer.advance 1 with depth := buffer.depth - 1 })

def parseItem (parseValue : Parse Json) : Parse Json := fun buffer =>
  parseValue (bufferSkipWhitespace (buffer.advance 1))

/-- The opening bracket is read without a test that the buffer goes on. -/
def parseArray (parseValue : Parse Json) : Parse Json := fun buffer => do
  match ← parseBracketed (fun buffer => (buffer.byteAt 0).map (· = openBracket)) closeBracket (parseItem parseValue) buffer with
  | none => return none
  | some (items, buffer) => return some (.array items, buffer)

def parseMember (parseValue : Parse Json) : Parse (Bytes × Json) := fun buffer => do
  if ¬ buffer.canAccessAtIndex 1 then return none
  match ← parseString (bufferSkipWhitespace (buffer.advance 1)) with
  | none => return none
  | some (name, buffer) =>
    let buffer := bufferSkipWhitespace buffer
    if ¬ buffer.shows colon then return none
    match ← parseValue (bufferSkipWhitespace (buffer.advance 1)) with
    | none => return none
    | some (value, buffer) => return some ((name, value), buffer)

def parseObject (parseValue : Parse Json) : Parse Json := fun buffer => do
  match ← parseBracketed (fun buffer => .ok (buffer.shows openBrace)) closeBrace (parseMember parseValue) buffer with
  | none => return none
  | some (members, buffer) => return some (.object members, buffer)

/-- `can_read` and `strncmp`. -/
def ParseBuffer.begins (buffer : ParseBuffer) (literal : Bytes) : Prop := literal <+: buffer.atOffset

instance (buffer : ParseBuffer) (literal : Bytes) : Decidable (buffer.begins literal) :=
  inferInstanceAs (Decidable (_ <+: _))

/-- The body of `parse_value`, with the parser of the values inside. -/
def parseValueWith (parseInner : Parse Json) : Parse Json := fun buffer =>
  if buffer.begins (text "null") then .ok (some (.null, buffer.advance 4))
  else if buffer.begins (text "false") then .ok (some (.false, buffer.advance 5))
  else if buffer.begins (text "true") then .ok (some (.true, buffer.advance 4))
  else if buffer.shows quote then do
    match ← parseString buffer with
    | none => return none
    | some (string, buffer) => return some (.string string, buffer)
  else if ∃ byte ∈ buffer.atOffset.head?, byte = minus ∨ isdigit byte then .ok (parseNumber buffer)
  else if buffer.shows openBracket then parseArray parseInner buffer
  else if buffer.shows openBrace then parseObject parseInner buffer
  else .ok none

/-- The recursion to a depth of nesting; the limit ends it before the last level. -/
def parseValueAt : Nat → Parse Json
  | 0 => fun _ => .ok none
  | level + 1 => parseValueWith (parseValueAt level)

def parseValue : Parse Json := fun buffer => parseValueAt (nestingLimit + 1 - buffer.depth) buffer

/-- `cJSON_Parse` of a string: its terminator belongs to the buffer, and what follows the value
is not looked at. -/
def parse (value : Bytes) : Except Fault (Option Json) := do
  match ← parseValue (bufferSkipWhitespace (skipUtf8Bom ⟨value ++ [0], 0, 0⟩)) with
  | none => return none
  | some (json, _) => return some json

end Trigger.CJson
