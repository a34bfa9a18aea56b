import Trigger.CJson.Parser

/-! The texts of JSON and the trees they denote.

A text denotes a tree in the data types of C: a string is cut at a zero byte, and a
number is rounded to `double` and saturated to `int`. The level of a text bounds how deep
its arrays and objects are nested.
-/

set_option autoImplicit false

namespace Trigger.CJson
open Foundation Config

def isBlank (byte : UInt8) : Prop := byte = 32 ∨ byte = 9 ∨ byte = 10 ∨ byte = 13

def Blank (source : Bytes) : Prop := ∀ byte ∈ source, isBlank byte

inductive FractionText : Bytes → Bytes → Prop where
  | none : FractionText [] []
  | some {digits : Bytes} : digits ≠ [] → (∀ byte ∈ digits, isdigit byte) → FractionText digits (point :: digits)

inductive ExponentText : Int → Bytes → Prop where
  | none : ExponentText 0 []
  | some {value : Int} {mark : UInt8} {source : Bytes} : mark = 101 ∨ mark = 69 → Numeral source value →
      ExponentText value (mark :: source)

def signText (negative : Bool) : Bytes := if negative then [minus] else []

/-- A decimal number and its value; leading zeros are allowed. -/
inductive NumberText : Rat → Bytes → Prop where
  | mk {whole fraction fractionText exponentText : Bytes} {exponent : Int} (negative : Bool) : whole ≠ [] →
      (∀ byte ∈ whole, isdigit byte) → FractionText fraction fractionText → ExponentText exponent exponentText →
      NumberText ((signed negative (decimal (whole ++ fraction)) : Rat) * 10 ^ (exponent - fraction.length))
        (signText negative ++ (whole ++ (fractionText ++ exponentText)))

def HexDigit (value : Nat) (byte : UInt8) : Prop :=
  value < 10 ∧ byte.toNat = 48 + value ∨ 10 ≤ value ∧ value < 16 ∧ (byte.toNat = 55 + value ∨ byte.toNat = 87 + value)

/-- Four hexadecimal digits, in either case. -/
inductive Hex4 : Nat → Bytes → Prop where
  | mk {first second third fourth : Nat} {a b c d : UInt8} : HexDigit first a → HexDigit second b → HexDigit third c →
      HexDigit fourth d → Hex4 (((first * 16 + second) * 16 + third) * 16 + fourth) [a, b, c, d]

inductive EscapeText : UInt8 → UInt8 → Prop where
  | quote : EscapeText quote quote
  | backslash : EscapeText backslash backslash
  | slash : EscapeText 47 47
  | backspace : EscapeText 8 98
  | formFeed : EscapeText 12 102
  | lineFeed : EscapeText 10 110
  | carriageReturn : EscapeText 13 114
  | tabulator : EscapeText 9 116

/-- The UTF-16 code units of a character: one, or the two of a pair. -/
inductive UnicodeText (character : Char) : Bytes → Prop where
  | unit {digits : Bytes} : character.toNat < 0x10000 → Hex4 character.toNat digits →
      UnicodeText character (backslash :: 117 :: digits)
  | pair {high low : Bytes} : 0x10000 ≤ character.toNat → Hex4 (0xD800 + (character.toNat - 0x10000) / 0x400) high →
      Hex4 (0xDC00 + (character.toNat - 0x10000) % 0x400) low →
      UnicodeText character (backslash :: 117 :: (high ++ backslash :: 117 :: low))

/-- What stands between the quotes, and the bytes it denotes. -/
inductive Characters : Bytes → Bytes → Prop where
  | nil : Characters [] []
  | plain {byte : UInt8} {content source : Bytes} : 32 ≤ byte → byte ≠ quote → byte ≠ backslash →
      Characters content source → Characters (byte :: content) (byte :: source)
  | escape {byte letter : UInt8} {content source : Bytes} : EscapeText byte letter →
      Characters content source → Characters (byte :: content) (backslash :: letter :: source)
  | unicode {character : Char} {sequence content source : Bytes} : UnicodeText character sequence →
      Characters content source → Characters (String.utf8EncodeChar character ++ content) (sequence ++ source)

/-- A string of C ends at its first zero byte. -/
inductive StringText : Bytes → Bytes → Prop where
  | mk {content source : Bytes} : Characters content source →
      StringText (cString content) (quote :: (source ++ [quote]))

section
variable {A : Type}

/-- White space on both sides. -/
def Padded (element : A → Bytes → Prop) (item : A) (source : Bytes) : Prop :=
  ∃ before body after, source = before ++ (body ++ after) ∧ Blank before ∧ element item body ∧ Blank after

inductive Elements (element : A → Bytes → Prop) : List A → Bytes → Prop where
  | last {item : A} {source : Bytes} : element item source → Elements element [item] source
  | more {item : A} {items : List A} {source rest : Bytes} : element item source → Elements element items rest →
      Elements element (item :: items) (source ++ comma :: rest)

inductive BracketedText (opening closing : UInt8) (element : A → Bytes → Prop) : List A → Bytes → Prop where
  | empty {blanks : Bytes} : Blank blanks → BracketedText opening closing element [] (opening :: (blanks ++ [closing]))
  | full {items : List A} {source : Bytes} : Elements (Padded element) items source →
      BracketedText opening closing element items (opening :: (source ++ [closing]))

end

inductive ScalarText : Json → Bytes → Prop where
  | null : ScalarText .null (text "null")
  | false : ScalarText .false (text "false")
  | true : ScalarText .true (text "true")
  | number {value : Rat} {source : Bytes} : NumberText value source →
      ScalarText (.number (saturated (roundBinary doublePrecision value))) source
  | string {content source : Bytes} : StringText content source → ScalarText (.string content) source

inductive MemberText (value : Json → Bytes → Prop) (member : Bytes × Json) : Bytes → Prop where
  | mk {name before after body : Bytes} : StringText member.1 name → Blank before → Blank after → value member.2 body →
      MemberText value member (name ++ (before ++ colon :: (after ++ body)))

inductive NestedText (inner : Json → Bytes → Prop) : Json → Bytes → Prop where
  | scalar {json : Json} {source : Bytes} : ScalarText json source → NestedText inner json source
  | array {items : List Json} {source : Bytes} : BracketedText openBracket closeBracket inner items source →
      NestedText inner (.array items) source
  | object {members : List (Bytes × Json)} {source : Bytes} :
      BracketedText openBrace closeBrace (MemberText inner) members source → NestedText inner (.object members) source

/-- The text of a value nested at most this deep. -/
def ValueText : Nat → Json → Bytes → Prop
  | 0 => ScalarText
  | levels + 1 => NestedText (ValueText levels)

/-- A whole text: a byte order mark, white space, a value, and anything behind it that does not
go on with a number. -/
inductive DocumentText (json : Json) : Bytes → Prop where
  | mk {mark blanks source rest : Bytes} : mark = [] ∨ mark = [0xEF, 0xBB, 0xBF] → Blank blanks →
      ValueText nestingLimit json source → (∀ byte ∈ rest.head?, isNumberByte byte = false) →
      DocumentText json (mark ++ (blanks ++ (source ++ rest)))

end Trigger.CJson
