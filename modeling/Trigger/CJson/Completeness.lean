import Trigger.CJson.Grammar
import Trigger.CJson.ParserSafety

/-! The parser reads every text of the grammar as the tree it denotes. -/

set_option autoImplicit false

namespace Trigger.CJson
open Foundation Config

section
variable {buffer : ParseBuffer} {source rest : Bytes} {byte : UInt8}

@[simp] theorem atOffset_advance (buffer : ParseBuffer) (count : Nat) :
    (buffer.advance count).atOffset = buffer.atOffset.drop count := by
  rw [ParseBuffer.atOffset, ParseBuffer.atOffset, List.drop_drop]
  rfl

@[simp] theorem advance_advance (buffer : ParseBuffer) (first second : Nat) :
    (buffer.advance first).advance second = buffer.advance (first + second) := by
  simp [ParseBuffer.advance, Nat.add_assoc]

@[simp] theorem depth_advance (buffer : ParseBuffer) (count : Nat) : (buffer.advance count).depth = buffer.depth := rfl

theorem access_iff {index : Nat} : buffer.canAccessAtIndex index ↔ index < buffer.atOffset.length := by
  rw [length_atOffset, ParseBuffer.canAccessAtIndex]
  omega

theorem byteAt_head (at_ : buffer.atOffset = byte :: rest) : buffer.byteAt 0 = .ok byte := by
  have found : buffer.content[buffer.offset + 0]? = some byte := by
    rw [← List.getElem?_drop]
    change buffer.atOffset[0]? = _
    rw [at_]
    rfl
  rw [ParseBuffer.byteAt, found]

theorem shows_iff {other : UInt8} (at_ : buffer.atOffset = byte :: rest) : buffer.shows other ↔ byte = other := by
  rw [ParseBuffer.shows, at_, List.head?_cons, Option.some.injEq]

theorem blank_le {blanks : Bytes} (blank : Blank blanks) : ∀ byte ∈ blanks, decide (byte ≤ 32) = true := by
  intro byte member
  rcases blank byte member with rfl | rfl | rfl | rfl <;> decide

theorem bufferSkipWhitespace_blank {blanks : Bytes} (at_ : buffer.atOffset = blanks ++ byte :: rest) (blank : Blank blanks)
    (visible : 32 < byte) : bufferSkipWhitespace buffer = buffer.advance blanks.length := by
  have access : buffer.canAccessAtIndex 0 := access_iff.mpr (by rw [at_]; simp)
  have stops : ∀ other ∈ (byte :: rest).head?, decide (other ≤ 32) = false := by
    rintro other same
    cases same
    simpa using visible
  have skipped : buffer.atOffset.takeWhile (· ≤ 32) = blanks := by
    rw [at_, takeWhile_stops (blank_le blank) stops]
  have inside : (buffer.advance blanks.length).offset ≠ (buffer.advance blanks.length).length := by
    have room := length_atOffset buffer
    rw [at_, List.length_append, List.length_cons] at room
    change buffer.offset + blanks.length ≠ buffer.length
    omega
  rw [bufferSkipWhitespace, if_pos access, skipped, if_neg inside]

end

theorem isdigit_numberByte {byte : UInt8} (digit : isdigit byte = true) : isNumberByte byte = true := by
  simp [isNumberByte, digit]

theorem FractionText.scanned {fraction source rest : Bytes} (isFraction : FractionText fraction source)
    (stops : ∀ byte ∈ rest.head?, isdigit byte = false ∧ byte ≠ point) :
    scanFraction (source ++ rest) = (fraction, rest) ∧ ∀ byte ∈ source, isNumberByte byte := by
  cases isFraction with
  | none =>
    refine ⟨?_, by simp⟩
    cases rest with
    | nil => rfl
    | cons head tail => rw [List.nil_append, scanFraction, if_neg (stops head rfl).2]
  | some nonempty digits =>
    refine ⟨?_, List.forall_mem_cons.mpr ⟨rfl, fun byte member => isdigit_numberByte (digits byte member)⟩⟩
    have ends := fun byte member => (stops byte member).1
    rw [List.cons_append, scanFraction, if_pos rfl, takeWhile_stops digits ends, dropWhile_stops digits ends]

theorem numeral_numberBytes {source : Bytes} {value : Int} (isNumeral : Numeral source value) :
    ∀ byte ∈ source, isNumberByte byte = true := by
  cases isNumeral with
  | unsigned _ digits => exact fun byte member => isdigit_numberByte (digits byte member)
  | positive _ digits =>
    exact List.forall_mem_cons.mpr ⟨rfl, fun byte member => isdigit_numberByte (digits byte member)⟩
  | negative _ digits =>
    exact List.forall_mem_cons.mpr ⟨rfl, fun byte member => isdigit_numberByte (digits byte member)⟩

theorem ExponentText.scanned {exponent : Int} {source : Bytes} (isExponent : ExponentText exponent source) :
    scanExponent source = (exponent, []) ∧ (∀ byte ∈ source, isNumberByte byte) ∧
      ∀ byte ∈ source.head?, isdigit byte = false ∧ byte ≠ point := by
  cases isExponent with
  | none => exact ⟨rfl, by simp, by simp⟩
  | @some _ mark body isMark isNumeral =>
    obtain ⟨-, negative, digits, split, nonempty, all, rfl⟩ := isNumeral.split
    have bytes := numeral_numberBytes isNumeral
    have whole := split []
    have noneBehind : ∀ byte ∈ ([] : Bytes).head?, isdigit byte = false := by simp
    rw [List.append_nil, List.append_nil] at whole
    have taken := takeWhile_stops all noneBehind
    have dropped := dropWhile_stops all noneBehind
    rw [List.append_nil] at taken dropped
    refine ⟨?_, ?_, ?_⟩
    · rw [scanExponent, if_pos isMark, whole]
      dsimp only
      rw [taken, dropped, if_neg nonempty]
    · refine List.forall_mem_cons.mpr ⟨?_, bytes⟩
      rcases isMark with rfl | rfl <;> rfl
    · rintro byte same
      cases same
      rcases isMark with rfl | rfl <;> decide

theorem NumberText.scanned {value : Rat} {source : Bytes} (isNumber : NumberText value source) :
    strtod source = some (roundBinary doublePrecision value, source.length) ∧ (∀ byte ∈ source, isNumberByte byte) ∧
      ∃ head tail, source = head :: tail ∧ (head = minus ∨ isdigit head = true) := by
  obtain ⟨negative, nonempty, digits, isFraction, isExponent⟩ := isNumber
  rename_i whole fraction fractionText exponentText exponent
  obtain ⟨scannedExponent, exponentBytes, behindFraction⟩ := isExponent.scanned
  obtain ⟨scannedFraction, fractionBytes⟩ := isFraction.scanned behindFraction
  obtain ⟨head, tail, rfl⟩ := List.exists_cons_of_ne_nil nonempty
  have digit := digits head (List.mem_cons_self ..)
  have split : splitSign (signText negative ++ (head :: tail ++ (fractionText ++ exponentText))) =
      (negative, head :: tail ++ (fractionText ++ exponentText)) := by
    obtain ⟨-, notMinus, notPlus⟩ := isdigit_plain digit
    cases negative with
    | false => simp [signText, splitSign, notMinus, notPlus]
    | true => simp [signText, splitSign]
  have behindWhole : ∀ byte ∈ (fractionText ++ exponentText).head?, isdigit byte = false := by
    cases isFraction with
    | none => exact fun byte member => (behindFraction byte member).1
    | some _ _ =>
      rintro byte same
      cases same
      decide
  refine ⟨?_, ?_, ?_⟩
  · rw [strtod, split]
    dsimp only
    rw [takeWhile_stops digits behindWhole, dropWhile_stops digits behindWhole, scannedFraction]
    dsimp only
    rw [scannedExponent, if_neg (fun both => nonempty both.1)]
    rfl
  · have signs : ∀ byte ∈ signText negative, isNumberByte byte = true := by
      cases negative <;> exact forall_mem_of_all (by decide)
    intro byte member
    simp only [List.mem_append] at member
    rcases member with member | member | member | member
    · exact signs byte member
    · exact isdigit_numberByte (digits byte member)
    · exact fractionBytes byte member
    · exact exponentBytes byte member
  · cases negative with
    | false => exact ⟨head, _, rfl, .inr digit⟩
    | true => exact ⟨minus, _, rfl, .inl rfl⟩

theorem parseNumber_text {buffer : ParseBuffer} {value : Rat} {source rest : Bytes} (isNumber : NumberText value source)
    (at_ : buffer.atOffset = source ++ rest) (follows : ∀ byte ∈ rest.head?, isNumberByte byte = false) :
    parseNumber buffer =
      some (.number (saturated (roundBinary doublePrecision value)), buffer.advance source.length) := by
  obtain ⟨scanned, bytes, -⟩ := isNumber.scanned
  rw [parseNumber, at_, takeWhile_stops bytes follows, scanned]
  rfl

theorem truncate_intCast (n : Int) : truncate n = n := by
  unfold truncate
  split_ifs
  · exact Int.floor_intCast n
  · exact Int.ceil_intCast n

/-- An integer of any length is read as itself or as the end of `int` on its side: the `double`
in between is exact for every `int`, and lies beyond where the integer does. -/
theorem saturated_roundBinary_intCast (n : Int) :
    saturated (roundBinary doublePrecision (n : Rat)) = max intMin (min n intMax) := by
  have wide : 0 < doublePrecision := by decide
  have heldMax : |intMax| < 2 ^ doublePrecision := by decide
  have heldMin : |intMin| < 2 ^ doublePrecision := by decide
  have ordered : (intMin : Rat) < (intMax : Rat) := by norm_num [intMin, intMax]
  unfold saturated
  rcases le_or_gt intMax n with large | below
  · have above : (intMax : Rat) ≤ roundBinary doublePrecision (n : Rat) :=
      le_roundBinary wide heldMax (by exact_mod_cast large)
    rw [if_pos above, min_eq_right large]
    rfl
  rcases le_or_gt n intMin with small | above
  · have under : roundBinary doublePrecision (n : Rat) ≤ intMin := roundBinary_le wide heldMin (by exact_mod_cast small)
    rw [if_neg (not_le.mpr (under.trans_lt ordered)), if_pos under, min_eq_left below.le, max_eq_left small]
  · have held : |n| < 2 ^ doublePrecision := by
      rw [abs_lt]
      simp only [intMin, intMax, doublePrecision] at above below ⊢
      omega
    rw [roundBinary_intCast wide held, if_neg (not_le.mpr (by exact_mod_cast below)), if_neg (not_le.mpr (by exact_mod_cast above)),
      truncate_intCast, min_eq_left below.le, max_eq_right above.le]

section
variable {rest : Bytes}

theorem HexDigit.read {value : Nat} {byte : UInt8} (digit : HexDigit value byte) : hexDigit byte = some value := by
  unfold hexDigit
  simp only [UInt8.le_iff_toNat_le, UInt8.reduceToNat]
  rcases digit with ⟨small, same⟩ | ⟨large, small, same | same⟩
  · rw [if_pos (by omega), same]
    congr 1
    omega
  · rw [if_neg (by omega), if_pos (by omega), same]
    congr 1
    omega
  · rw [if_neg (by omega), if_neg (by omega), if_pos (by omega), same]
    congr 1
    omega

/-- A byte that the search for the closing quote passes by itself. -/
def Ordinary (byte : UInt8) : Prop := byte ≠ quote ∧ byte ≠ backslash

theorem HexDigit.ordinary {value : Nat} {byte : UInt8} (digit : HexDigit value byte) : Ordinary byte := by
  unfold HexDigit at digit
  constructor
  · rintro rfl
    simp only [quote, UInt8.reduceToNat] at digit
    omega
  · rintro rfl
    simp only [backslash, UInt8.reduceToNat] at digit
    omega

theorem Hex4.read {value : Nat} {digits : Bytes} (isHex : Hex4 value digits) (rest : Bytes) :
    parseHex4 (digits ++ rest) = .ok value := by
  obtain ⟨a, b, c, d⟩ := isHex
  simp only [List.cons_append, parseHex4, a.read, b.read, c.read, d.read]

theorem Hex4.length {value : Nat} {digits : Bytes} (isHex : Hex4 value digits) : digits.length = 4 := by
  cases isHex
  rfl

theorem Hex4.ordinary {value : Nat} {digits : Bytes} (isHex : Hex4 value digits) : ∀ byte ∈ digits, Ordinary byte := by
  obtain ⟨a, b, c, d⟩ := isHex
  simp only [List.forall_mem_cons, List.not_mem_nil, false_implies, implies_true, and_true]
  exact ⟨a.ordinary, b.ordinary, c.ordinary, d.ordinary⟩

theorem continuation_eq (codepoint : Nat) : continuation codepoint = UInt8.ofNat (codepoint % 64 + 0x80) := by
  have low : codepoint &&& 0x3F = codepoint % 64 := Nat.and_two_pow_sub_one_eq_mod codepoint 6
  have joined : 0x80 + codepoint % 64 = 0x80 ||| codepoint % 64 :=
    Nat.two_pow_add_eq_or_of_lt (i := 7) (by omega) 1
  have masked : (codepoint ||| 0x80) &&& (0x3F ||| 0x80) = codepoint % 64 + 0x80 := by
    rw [← Nat.or_and_distrib_right, low, Nat.or_comm, ← joined, Nat.add_comm]
  exact congrArg UInt8.ofNat masked

/-- The first byte of an encoding: the marks stand above the bits of the code point. -/
theorem first_byte_eq (bits lead : Nat) {high : Nat} (small : high < 2 ^ bits) (fits : 2 ^ bits * lead + high < 256) :
    (high ||| 2 ^ bits * lead) &&& 0xFF = high % 2 ^ bits + 2 ^ bits * lead := by
  rw [Nat.or_comm, ← Nat.two_pow_add_eq_or_of_lt small, Nat.mod_eq_of_lt small, Nat.add_comm high]
  exact (Nat.and_two_pow_sub_one_eq_mod _ 8).trans (Nat.mod_eq_of_lt fits)

theorem encodeUtf8_char (character : Char) : encodeUtf8 character.toNat = some (String.utf8EncodeChar character) := by
  have valid : character.toNat ≤ 0x10FFFF := by
    have := character.valid
    simp only [Char.toNat, UInt32.isValidChar, Nat.isValidChar] at this ⊢
    omega
  have shift (count : Nat) : character.toNat >>> count = character.toNat / 2 ^ count := Nat.shiftRight_eq_div_pow ..
  change encodeUtf8 character.toNat = some (if character.toNat ≤ 0x7f then _ else
    if character.toNat ≤ 0x7ff then _ else if character.toNat ≤ 0xffff then _ else _)
  unfold encodeUtf8
  by_cases one : character.toNat < 0x80
  · have masked : character.toNat &&& 0x7F = character.toNat :=
      (Nat.and_two_pow_sub_one_eq_mod _ 7).trans (Nat.mod_eq_of_lt one)
    rw [if_pos one, if_pos (Nat.le_of_lt_succ one), masked]
    rfl
  rw [if_neg one, if_neg (fun small => one (Nat.lt_succ_of_le small))]
  by_cases two : character.toNat < 0x800
  · have first : (character.toNat / 2 ^ 6 ||| 0xC0) &&& 0xFF = character.toNat / 64 % 32 + 0xC0 :=
      first_byte_eq 5 6 (by omega) (by omega)
    rw [if_pos two, if_pos (Nat.le_of_lt_succ two), shift, first, continuation_eq]
    rfl
  rw [if_neg two, if_neg (fun small => two (Nat.lt_succ_of_le small))]
  by_cases three : character.toNat < 0x10000
  · have first : (character.toNat / 2 ^ 12 ||| 0xE0) &&& 0xFF = character.toNat / 4096 % 16 + 0xE0 :=
      first_byte_eq 4 14 (by omega) (by omega)
    rw [if_pos three, if_pos (Nat.le_of_lt_succ three), shift, shift, first, continuation_eq, continuation_eq]
    rfl
  · have first : (character.toNat / 2 ^ 18 ||| 0xF0) &&& 0xFF = character.toNat / 262144 % 8 + 0xF0 :=
      first_byte_eq 3 30 (by omega) (by omega)
    rw [if_neg three, if_pos valid, if_neg (fun small => three (Nat.lt_succ_of_le small)), shift, shift, shift, first,
      continuation_eq, continuation_eq, continuation_eq]
    rfl

theorem surrogates_eq {code first second : Nat} (pair : 0x10000 ≤ code) (valid : code ≤ 0x10FFFF)
    (isFirst : 0xD800 + (code - 0x10000) / 0x400 = first) (isSecond : 0xDC00 + (code - 0x10000) % 0x400 = second) :
    0x10000 + ((first &&& 0x3FF) <<< 10 ||| second &&& 0x3FF) = code := by
  have mask (number : Nat) : number &&& 0x3FF = number % 1024 := Nat.and_two_pow_sub_one_eq_mod number 10
  have low : second % 1024 < 2 ^ 10 := by omega
  rw [mask, mask, ← Nat.shiftLeft_add_eq_or_of_lt low, Nat.shiftLeft_eq]
  omega

theorem UnicodeText.converted {character : Char} {sequence : Bytes} (isUnicode : UnicodeText character sequence)
    (rest : Bytes) {available : Nat} (room : sequence.length ≤ available) :
    utf16LiteralToUtf8 (sequence ++ rest) available =
      .ok (some (sequence.length, String.utf8EncodeChar character)) := by
  have valid := character.valid
  simp only [UInt32.isValidChar, Nat.isValidChar] at valid
  change character.toNat < _ ∨ _ < character.toNat ∧ character.toNat < _ at valid
  unfold utf16LiteralToUtf8
  cases isUnicode with
  | @unit digits small isHex =>
    have count : (backslash :: 117 :: digits).length = 6 := by rw [List.length_cons, List.length_cons, isHex.length]
    rw [if_neg (by omega)]
    change (parseHex4 (digits ++ rest) >>= _) = _
    rw [isHex.read, ok_bind, if_neg (by omega), if_neg (by omega), encodeUtf8_char, count]
    rfl
  | @pair high low large isHigh isLow =>
    generalize isFirst : 0xD800 + (character.toNat - 0x10000) / 0x400 = first at isHigh
    generalize isSecond : 0xDC00 + (character.toNat - 0x10000) % 0x400 = second at isLow
    have highCount := isHigh.length
    have lowCount := isLow.length
    have count : (backslash :: 117 :: (high ++ backslash :: 117 :: low)).length = 12 := by
      simp [highCount, lowCount]
    have behind : (backslash :: 117 :: (high ++ backslash :: 117 :: low) ++ rest).drop 6 =
        backslash :: 117 :: (low ++ rest) := by
      change ((high ++ backslash :: 117 :: low) ++ rest).drop 4 = _
      rw [List.append_assoc, ← highCount, List.drop_left]
      rfl
    rw [if_neg (by omega), behind]
    change (parseHex4 ((high ++ backslash :: 117 :: low) ++ rest) >>= _) = _
    rw [List.append_assoc, isHigh.read]
    rw [ok_bind, if_neg (by omega), if_pos (by omega), if_neg (by omega)]
    dsimp only
    rw [if_pos ⟨rfl, rfl⟩, isLow.read, ok_bind, if_neg (by omega), surrogates_eq large (by omega) isFirst isSecond, encodeUtf8_char, count]
    rfl

theorem UnicodeText.head {character : Char} {sequence : Bytes} (isUnicode : UnicodeText character sequence) :
    ∃ more, sequence = backslash :: 117 :: more ∧ 4 ≤ more.length := by
  cases isUnicode with
  | unit _ isHex => exact ⟨_, rfl, by rw [isHex.length]⟩
  | pair _ isHigh _ => exact ⟨_, rfl, by rw [List.length_append, isHigh.length]; exact Nat.le_add_right ..⟩

theorem closingQuote_ordinary (bytes : Bytes) (ordinary : ∀ byte ∈ bytes, Ordinary byte) (rest : Bytes) :
    closingQuote (bytes ++ rest) = (closingQuote rest).map fun (length, skipped) => (bytes.length + length, skipped) := by
  induction bytes with
  | nil => simp
  | cons byte bytes ih =>
    obtain ⟨first, others⟩ := List.forall_mem_cons.mp ordinary
    rw [List.cons_append, closingQuote.eq_def]
    dsimp only
    rw [if_neg first.1, if_neg first.2, ih others, Option.map_map]
    congr 1
    funext found
    simp only [Function.comp_apply, List.length_cons]
    congr 1
    omega

theorem closingQuote_pair (letter : UInt8) (rest : Bytes) : closingQuote (backslash :: letter :: rest) =
    (closingQuote rest).map fun (length, skipped) => (length + 2, skipped + 1) := by
  rw [closingQuote.eq_def]
  dsimp only
  rw [if_neg (by decide), if_pos rfl]

theorem Characters.closed {content source : Bytes} (characters : Characters content source) (rest : Bytes) :
    ∃ skipped, closingQuote (source ++ quote :: rest) = some (source.length, skipped) := by
  induction characters with
  | nil => exact ⟨0, by rw [List.nil_append, closingQuote.eq_def]; rfl⟩
  | @plain byte content source _ notQuote notBackslash _ ih =>
    obtain ⟨skipped, closes⟩ := ih
    have passed := closingQuote_ordinary [byte] (by simpa using ⟨notQuote, notBackslash⟩) (source ++ quote :: rest)
    rw [closes] at passed
    exact ⟨skipped, passed.trans (by simp [Nat.add_comm])⟩
  | escape _ _ ih =>
    obtain ⟨skipped, closes⟩ := ih
    exact ⟨skipped + 1, by rw [List.cons_append, List.cons_append, closingQuote_pair, closes]; rfl⟩
  | @unicode character sequence content source isUnicode _ ih =>
    obtain ⟨skipped, closes⟩ := ih
    rw [List.append_assoc]
    cases isUnicode with
    | @unit digits _ isHex =>
      refine ⟨skipped + 1, ?_⟩
      rw [List.cons_append, List.cons_append, closingQuote_pair, closingQuote_ordinary _ isHex.ordinary, closes]
      simp only [Option.map_some, List.length_append, List.length_cons]
      congr 2
      omega
    | @pair high low _ isHigh isLow =>
      refine ⟨skipped + 2, ?_⟩
      rw [List.cons_append, List.cons_append, closingQuote_pair, List.append_assoc, closingQuote_ordinary _ isHigh.ordinary,
        List.cons_append, List.cons_append, closingQuote_pair, closingQuote_ordinary _ isLow.ordinary, closes]
      simp only [Option.map_some, List.length_append, List.length_cons]
      congr 2
      omega

theorem put_eq {capacity : Nat} {output bytes written : Bytes} (wrote : put capacity output bytes = .ok written) :
    written = output ++ bytes := by
  unfold put at wrote
  split_ifs at wrote
  cases wrote
  rfl

theorem EscapeText.simple {byte letter : UInt8} (isEscape : EscapeText byte letter) : simpleEscape letter = some byte := by
  cases isEscape <;> rfl

theorem Characters.unescaped {content source : Bytes} (characters : Characters content source) {capacity : Nat}
    {output : Bytes} {result : Option Bytes} (done : unescape capacity (source ++ rest) source.length output = .ok result) :
    result = some (output ++ content) := by
  induction characters generalizing output with
  | nil =>
    rw [List.length_nil, unescape_zero] at done
    cases done
    rw [List.append_nil]
  | @plain byte content source _ _ notBackslash _ ih =>
    rw [unescape.eq_def, if_neg (by simp)] at done
    simp only [List.cons_append] at done
    rw [if_pos notBackslash] at done
    obtain ⟨written, wrote, later⟩ := bind_ok_iff.mp done
    rw [ih later, put_eq wrote, List.append_assoc]
    rfl
  | @escape byte letter content source isEscape _ ih =>
    rw [unescape.eq_def, if_neg (by simp)] at done
    simp only [List.cons_append] at done
    rw [if_neg (by simp), isEscape.simple] at done
    obtain ⟨written, wrote, later⟩ := bind_ok_iff.mp done
    rw [ih later, put_eq wrote, List.append_assoc]
    rfl
  | @unicode character sequence content source isUnicode _ ih =>
    have converted := @UnicodeText.converted _ _ isUnicode (source ++ rest) (sequence ++ source).length (by simp)
    obtain ⟨more, rfl, -⟩ := isUnicode.head
    rw [unescape.eq_def, if_neg (by simp)] at done
    simp only [List.cons_append, List.append_assoc] at done converted
    rw [if_neg (by simp)] at done
    simp only [show simpleEscape 117 = none from rfl, if_true] at done
    rw [converted] at done
    change (put capacity output (String.utf8EncodeChar character) >>= fun output =>
      unescape capacity ((117 :: (more ++ (source ++ rest))).drop (more.length + 1))
        ((backslash :: 117 :: (more ++ source)).length - (more.length + 1 + 1)) output) = .ok result at done
    obtain ⟨written, wrote, later⟩ := bind_ok_iff.mp done
    have behind : (117 :: (more ++ (source ++ rest))).drop (more.length + 1) = source ++ rest := by
      rw [List.drop_succ_cons, List.drop_left]
    have left : (backslash :: 117 :: (more ++ source)).length - (more.length + 1 + 1) = source.length := by
      simp only [List.length_cons, List.length_append]
      omega
    rw [behind, left] at later
    rw [ih later, put_eq wrote, List.append_assoc]

theorem parseString_text {buffer : ParseBuffer} {content source : Bytes} (isString : StringText content source)
    (at_ : buffer.atOffset = source ++ rest) : parseString buffer = .ok (some (content, buffer.advance source.length)) := by
  obtain ⟨characters⟩ := isString
  rename_i content source
  obtain ⟨skipped, closes⟩ := characters.closed rest
  rw [List.cons_append, List.append_assoc, List.singleton_append] at at_
  have bounds := closingQuote_bounds closes
  obtain ⟨result, unescaped, fits⟩ := unescape_ok (source.length + 1 - skipped + 1) source.length []
    (.inl ⟨skipped, closes, Nat.sub_add_cancel (by omega)⟩) (by simp only [List.length_nil]; omega)
  obtain rfl := characters.unescaped unescaped
  have short := fits _ rfl
  simp only [List.length_nil, List.nil_append] at short unescaped
  unfold parseString
  rw [byteAt_head at_, ok_bind, if_neg (fun apart => apart rfl), at_, List.drop_succ_cons, List.drop_zero, closes]
  dsimp only
  rw [unescaped, ok_bind]
  dsimp only
  rw [put_ok (by simp only [List.length_singleton]; omega), ok_bind, cString_terminated]
  simp only [List.length_cons, List.length_append, List.length_nil]
  rfl

end

/-- What follows does not go on with a number. -/
def Follows (rest : Bytes) : Prop := ∀ byte ∈ rest.head?, isNumberByte byte = false

/-- Texts start with a byte of ASCII that is seen, and not with a closing bracket. -/
def Starts {A : Type} (denotes : A → Bytes → Prop) : Prop :=
  ∀ item source, denotes item source → ∃ head tail, source = head :: tail ∧ 32 < head ∧ head < 128 ∧
    head ≠ closeBracket ∧ head ≠ closeBrace

/-- At a depth the parser takes just the text. -/
def Reads {A : Type} (denotes : A → Bytes → Prop) (depth : Nat) (parser : Parse A) : Prop :=
  ∀ buffer item source rest, denotes item source → buffer.atOffset = source ++ rest → buffer.depth = depth → Follows rest →
    parser buffer = .ok (some (item, buffer.advance source.length))

/-- The parser of an element starts a byte before it. -/
def ReadsBehind {A : Type} (denotes : A → Bytes → Prop) (depth : Nat) (parser : Parse A) : Prop :=
  ∀ buffer item byte before source rest, denotes item source → Blank before →
    buffer.atOffset = byte :: (before ++ (source ++ rest)) → buffer.depth = depth → Follows rest →
    parser buffer = .ok (some (item, buffer.advance (1 + (before.length + source.length))))

theorem Blank.follows {blanks rest : Bytes} (blank : Blank blanks) (follows : Follows rest) : Follows (blanks ++ rest) := by
  cases blanks with
  | nil => exact follows
  | cons byte blanks =>
    rintro other same
    cases same
    rcases blank byte (List.mem_cons_self ..) with rfl | rfl | rfl | rfl <;> decide

section
variable {A : Type} {denotes : A → Bytes → Prop} {depth : Nat} {parser : Parse A} {buffer : ParseBuffer}

theorem back_atOffset (started : 0 < buffer.offset) (inside : buffer.offset ≤ buffer.length) :
    ∃ byte, buffer.back.atOffset = byte :: buffer.atOffset := by
  have before : buffer.offset - 1 < buffer.content.length := by
    change buffer.offset ≤ buffer.content.length at inside
    omega
  refine ⟨buffer.content[buffer.offset - 1], ?_⟩
  change buffer.content.drop (buffer.offset - 1) = _ :: buffer.content.drop buffer.offset
  rw [List.drop_eq_getElem_cons before, Nat.sub_add_cancel started]

theorem back_advance {count : Nat} (started : 0 < buffer.offset) : buffer.back.advance (1 + count) = buffer.advance count := by
  simp only [ParseBuffer.back, ParseBuffer.advance, ParseBuffer.mk.injEq, true_and, and_true]
  omega

theorem Elements.trim (starts : Starts denotes) {items : List A} {source : Bytes}
    (elements : Elements (Padded denotes) items source) : ∃ before head tail, source = before ++ head :: tail ∧ Blank before ∧
      Elements (Padded denotes) items (head :: tail) ∧ 32 < head ∧ head < 128 ∧ head ≠ closeBracket ∧ head ≠ closeBrace := by
  cases elements with
  | last padded =>
    obtain ⟨before, body, after, rfl, blankBefore, isItem, blankAfter⟩ := padded
    obtain ⟨head, tail, rfl, visible⟩ := starts _ _ isItem
    exact ⟨before, head, tail ++ after, rfl, blankBefore,
      .last ⟨[], head :: tail, after, rfl, by simp [Blank], isItem, blankAfter⟩, visible⟩
  | more padded others =>
    rename_i items source rest
    obtain ⟨before, body, after, rfl, blankBefore, isItem, blankAfter⟩ := padded
    obtain ⟨head, tail, rfl, visible⟩ := starts _ _ isItem
    exact ⟨before, head, tail ++ after ++ comma :: rest, by simp, blankBefore,
      .more ⟨[], head :: tail, after, rfl, by simp [Blank], isItem, blankAfter⟩ others, visible⟩

theorem ReadsBehind.padded (reads : ReadsBehind denotes depth parser) {item : A} {source rest : Bytes} {byte follow : UInt8}
    (shallow : buffer.depth = depth) (padded : Padded denotes item source)
    (at_ : buffer.atOffset = byte :: (source ++ follow :: rest)) (visible : 32 < follow)
    (noNumber : isNumberByte follow = false) :
    ∃ middle, parser buffer = .ok (some (item, middle)) ∧
      bufferSkipWhitespace middle = buffer.advance (1 + source.length) := by
  obtain ⟨before, body, after, rfl, blankBefore, isItem, blankAfter⟩ := padded
  have follows : Follows (follow :: rest) := by
    rintro other same
    cases same
    exact noNumber
  simp only [List.append_assoc] at at_
  refine ⟨_, reads buffer item byte before body (after ++ follow :: rest) isItem blankBefore at_ shallow
    (blankAfter.follows follows), ?_⟩
  have behind : (buffer.advance (1 + (before.length + body.length))).atOffset = after ++ follow :: rest := by
    rw [atOffset_advance, at_, ← List.append_assoc before, Nat.add_comm, List.drop_succ_cons, ← List.length_append,
      List.drop_left]
  rw [bufferSkipWhitespace_blank behind blankAfter visible, advance_advance]
  simp only [List.length_append]
  congr 1
  omega

theorem parseElements_text (reads : ReadsBehind denotes depth parser) {items : List A} {source : Bytes}
    (elements : Elements (Padded denotes) items source) {closing : UInt8} (visible : 32 < closing)
    (noNumber : isNumberByte closing = false) (noComma : closing ≠ comma) (rest : Bytes) (byte : UInt8) (buffer : ParseBuffer)
    (fuel : Nat) (done : List A) (shallow : buffer.depth = depth) (at_ : buffer.atOffset = byte :: (source ++ closing :: rest))
    (enough : source.length < fuel) :
    parseElements parser fuel done buffer = .ok (some (done ++ items, buffer.advance (1 + source.length))) := by
  induction elements generalizing byte buffer fuel done with
  | @last item source padded =>
    obtain ⟨fuel, rfl⟩ := Nat.exists_eq_succ_of_ne_zero (Nat.ne_of_gt (Nat.zero_lt_of_lt enough))
    obtain ⟨middle, parsed, skipped⟩ := reads.padded shallow padded at_ visible noNumber
    have behind : (buffer.advance (1 + source.length)).atOffset = closing :: rest := by
      rw [atOffset_advance, at_, Nat.add_comm, List.drop_succ_cons, List.drop_left]
    rw [parseElements, parsed, ok_bind]
    dsimp only
    rw [skipped, if_neg (fun shown => noComma ((shows_iff behind).mp shown))]
    rfl
  | @more item items source others padded _ ih =>
    obtain ⟨fuel, rfl⟩ := Nat.exists_eq_succ_of_ne_zero (Nat.ne_of_gt (Nat.zero_lt_of_lt enough))
    simp only [List.append_assoc, List.cons_append, List.length_append, List.length_cons] at at_ enough
    obtain ⟨middle, parsed, skipped⟩ := reads.padded shallow padded at_ (by decide) (by decide)
    have behind : (buffer.advance (1 + source.length)).atOffset = comma :: (others ++ closing :: rest) := by
      rw [atOffset_advance, at_, Nat.add_comm, List.drop_succ_cons, List.drop_left]
    rw [parseElements, parsed, ok_bind]
    dsimp only
    rw [skipped, if_pos ((shows_iff behind).mpr rfl), ih comma (buffer.advance (1 + source.length)) fuel (done ++ [item]) shallow behind (by omega),
      advance_advance, List.append_assoc, List.length_append, List.length_cons]
    simp only [List.singleton_append]
    congr 4
    omega

theorem parseBracketed_text {opening closing : UInt8} (visible : 32 < closing) (noNumber : isNumberByte closing = false)
    (noComma : closing ≠ comma) (isClosing : closing = closeBracket ∨ closing = closeBrace) (starts : Starts denotes)
    (reads : ReadsBehind denotes (depth + 1) parser) {opens : ParseBuffer → Except Fault Bool}
    (opened : ∀ buffer rest, ParseBuffer.atOffset buffer = opening :: rest → opens buffer = .ok true) {items : List A}
    {source rest : Bytes} (isBracketed : BracketedText opening closing denotes items source) (shallow : buffer.depth = depth)
    (limit : depth < nestingLimit) (at_ : buffer.atOffset = source ++ rest) :
    parseBracketed opens closing parser buffer = .ok (some (items, buffer.advance source.length)) := by
  let deeper : ParseBuffer := { buffer with depth := buffer.depth + 1 }
  have here (more : Bytes) (same : buffer.atOffset = more) : deeper.atOffset = more := same
  -- The depth is taken back behind the closing bracket.
  have close (count : Nat) : { (deeper.advance count).advance 1 with depth := (deeper.advance count).depth - 1 } =
      buffer.advance (count + 1) := by
    rw [advance_advance]
    rfl
  unfold parseBracketed
  rw [if_neg (by omega)]
  change (opens deeper >>= _) = _
  cases isBracketed with
  | @empty blanks blank =>
    simp only [List.cons_append, List.append_assoc, List.nil_append] at at_
    have behind : (deeper.advance 1).atOffset = blanks ++ closing :: rest := by rw [atOffset_advance, here _ at_]; rfl
    have last : (deeper.advance (1 + blanks.length)).atOffset = closing :: rest := by
      rw [← advance_advance, atOffset_advance, behind, List.drop_left]
    rw [opened deeper _ (here _ at_), ok_bind, if_neg (by simp)]
    dsimp only
    rw [bufferSkipWhitespace_blank behind blank visible, advance_advance, if_pos ((shows_iff last).mpr rfl), close]
    simp only [List.length_cons, List.length_append, List.length_nil, Nat.add_comm 1]
    rfl
  | @full _ inside elements =>
    obtain ⟨before, head, tail, rfl, blank, trimmed, seen, -, notBracket, notBrace⟩ := elements.trim starts
    simp only [List.cons_append, List.append_assoc, List.nil_append] at at_
    have behind : (deeper.advance 1).atOffset = before ++ head :: (tail ++ closing :: rest) := by
      rw [atOffset_advance, here _ at_]
      rfl
    have inner : (deeper.advance (1 + before.length)).atOffset = head :: (tail ++ closing :: rest) := by
      rw [← advance_advance, atOffset_advance, behind, List.drop_left]
    have access : (deeper.advance (1 + before.length)).canAccessAtIndex 0 := access_iff.mpr (by rw [inner]; simp)
    have apart : ¬ (deeper.advance (1 + before.length)).shows closing := by
      rw [shows_iff inner]
      rcases isClosing with rfl | rfl
      · exact notBracket
      · exact notBrace
    have started : 0 < (deeper.advance (1 + before.length)).offset := Nat.lt_add_left _ (by omega)
    obtain ⟨byte, from_⟩ := back_atOffset started (Nat.le_of_lt access)
    rw [inner] at from_
    have few := length_atOffset (deeper.advance (1 + before.length))
    rw [inner] at few
    simp only [List.length_cons, List.length_append] at few
    have parsed := parseElements_text reads trimmed visible noNumber noComma rest byte _
      ((deeper.advance (1 + before.length)).length + 1) [] (congrArg (· + 1) shallow) from_
      (by simp only [List.length_cons]; omega)
    rw [back_advance started, advance_advance, List.nil_append] at parsed
    have last : (deeper.advance (1 + before.length + (head :: tail).length)).atOffset = closing :: rest := by
      rw [← advance_advance, atOffset_advance, inner, ← List.cons_append, List.drop_left]
    rw [opened deeper _ (here _ at_), ok_bind, if_neg (by simp)]
    dsimp only
    rw [bufferSkipWhitespace_blank behind blank seen, advance_advance, if_neg apart, if_neg (not_not.mpr access), parsed, ok_bind]
    dsimp only
    rw [if_neg (not_not.mpr ((shows_iff last).mpr rfl)), close]
    simp only [List.length_cons, List.length_append, List.length_nil]
    congr 4
    omega

end

section
variable {inner : Json → Bytes → Prop} {depth : Nat} {parseInner : Parse Json} {buffer : ParseBuffer} {rest : Bytes}

theorem behind_blanks {byte : UInt8} {before source : Bytes} (at_ : buffer.atOffset = byte :: (before ++ (source ++ rest))) :
    (buffer.advance (1 + before.length)).atOffset = source ++ rest := by
  rw [atOffset_advance, at_, Nat.add_comm, List.drop_succ_cons, List.drop_left]

theorem skip_behind {byte : UInt8} {before source : Bytes} (blank : Blank before)
    (at_ : buffer.atOffset = byte :: (before ++ (source ++ rest))) {head : UInt8} {tail : Bytes} (starts : source = head :: tail)
    (visible : 32 < head) : bufferSkipWhitespace (buffer.advance 1) = buffer.advance (1 + before.length) := by
  have behind : (buffer.advance 1).atOffset = before ++ head :: (tail ++ rest) := by
    rw [atOffset_advance, at_, starts]
    rfl
  rw [bufferSkipWhitespace_blank behind blank visible, advance_advance]

theorem parseItem_text (starts : Starts inner) (reads : Reads inner depth parseInner) :
    ReadsBehind inner depth (parseItem parseInner) := by
  intro buffer item byte before source rest isItem blank at_ shallow follows
  obtain ⟨head, tail, begins, visible, -⟩ := starts _ _ isItem
  rw [parseItem, skip_behind blank at_ begins visible,
    reads _ item source rest isItem (behind_blanks at_) shallow follows, advance_advance,
    Nat.add_assoc]

theorem StringText.begins {content source : Bytes} (isString : StringText content source) : ∃ tail, source = quote :: tail := by
  cases isString
  exact ⟨_, rfl⟩

theorem parseMember_text (starts : Starts inner) (reads : Reads inner depth parseInner) :
    ReadsBehind (MemberText inner) depth (parseMember parseInner) := by
  intro buffer member byte before source rest isMember blank at_ shallow follows
  obtain ⟨isName, blankColon, blankBody, isValue⟩ := isMember
  rename_i name beforeColon afterColon body
  obtain ⟨nameTail, nameBegins⟩ := isName.begins
  obtain ⟨head, tail, begins, visible, -⟩ := starts _ _ isValue
  simp only [List.append_assoc, List.cons_append] at at_
  have access : buffer.canAccessAtIndex 1 := access_iff.mpr (by rw [at_, nameBegins]; simp)
  have atName := behind_blanks at_
  have named := parseString_text isName atName
  have atColon : ((buffer.advance (1 + before.length)).advance name.length).atOffset =
      beforeColon ++ colon :: (afterColon ++ (body ++ rest)) := by
    rw [atOffset_advance, atName, List.drop_left]
  have skipped := bufferSkipWhitespace_blank atColon blankColon (by decide)
  have here : (((buffer.advance (1 + before.length)).advance name.length).advance beforeColon.length).atOffset =
      colon :: (afterColon ++ (body ++ rest)) := by
    rw [atOffset_advance, atColon, List.drop_left]
  unfold parseMember
  rw [if_neg (not_not.mpr access), skip_behind blank at_ nameBegins (by decide), named, ok_bind]
  dsimp only
  rw [skipped, if_neg (not_not.mpr ((shows_iff here).mpr rfl)), skip_behind blankBody here begins visible,
    reads _ member.2 body rest isValue (behind_blanks here) shallow follows, ok_bind]
  dsimp only
  simp only [advance_advance, List.length_append, List.length_cons]
  refine congrArg (fun count => Except.ok (some (member, buffer.advance count))) ?_
  omega

theorem memberText_starts : Starts (MemberText inner) := by
  rintro member source ⟨isName, _, _, _⟩
  obtain ⟨tail, rfl⟩ := isName.begins
  exact ⟨quote, _, rfl, by decide, by decide, by decide, by decide⟩

theorem parseArray_text (starts : Starts inner) (reads : Reads inner (depth + 1) parseInner) {items : List Json} {source : Bytes}
    (isArray : BracketedText openBracket closeBracket inner items source) (shallow : buffer.depth = depth)
    (limit : depth < nestingLimit) (at_ : buffer.atOffset = source ++ rest) :
    parseArray parseInner buffer = .ok (some (.array items, buffer.advance source.length)) := by
  have opened (buffer : ParseBuffer) (rest : Bytes) (here : buffer.atOffset = openBracket :: rest) :
      (buffer.byteAt 0).map (fun byte => decide (byte = openBracket)) = .ok true := by
    rw [byteAt_head here]
    rfl
  rw [parseArray, parseBracketed_text (by decide) (by decide) (by decide) (.inl rfl) starts (parseItem_text starts reads) opened
    isArray shallow limit at_, ok_bind]
  rfl

theorem parseObject_text (starts : Starts inner) (reads : Reads inner (depth + 1) parseInner)
    {members : List (Bytes × Json)} {source : Bytes}
    (isObject : BracketedText openBrace closeBrace (MemberText inner) members source) (shallow : buffer.depth = depth)
    (limit : depth < nestingLimit) (at_ : buffer.atOffset = source ++ rest) :
    parseObject parseInner buffer = .ok (some (.object members, buffer.advance source.length)) := by
  have opened (buffer : ParseBuffer) (rest : Bytes) (here : buffer.atOffset = openBrace :: rest) :
      Except.ok (ε := Fault) (decide (buffer.shows openBrace)) = .ok true := by
    rw [decide_eq_true ((shows_iff here).mpr rfl)]
  rw [parseObject, parseBracketed_text (by decide) (by decide) (by decide) (.inr rfl) memberText_starts
    (parseMember_text starts reads) opened isObject shallow limit at_, ok_bind]
  rfl

theorem begins_head {byte first : UInt8} {literal rest : Bytes} (at_ : buffer.atOffset = byte :: rest)
    (begins : buffer.begins (first :: literal)) : byte = first := by
  rw [ParseBuffer.begins, at_, List.cons_prefix_cons] at begins
  exact begins.1.symm

theorem text_null : text "null" = [110, 117, 108, 108] := by decide
theorem text_false : text "false" = [102, 97, 108, 115, 101] := by decide
theorem text_true : text "true" = [116, 114, 117, 101] := by decide

theorem parseValueWith_head {byte : UInt8} (at_ : buffer.atOffset = byte :: rest)
    (noLiteral : byte ≠ 110 ∧ byte ≠ 102 ∧ byte ≠ 116) : parseValueWith parseInner buffer =
      if byte = quote then (parseString buffer).map (Option.map fun (string, buffer) => (.string string, buffer))
      else if byte = minus ∨ isdigit byte then .ok (parseNumber buffer)
      else if byte = openBracket then parseArray parseInner buffer
      else if byte = openBrace then parseObject parseInner buffer
      else .ok none := by
  have noNull : ¬ buffer.begins (text "null") := fun begins => noLiteral.1 (begins_head at_ (text_null ▸ begins))
  have noFalse : ¬ buffer.begins (text "false") := fun begins => noLiteral.2.1 (begins_head at_ (text_false ▸ begins))
  have noTrue : ¬ buffer.begins (text "true") := fun begins => noLiteral.2.2 (begins_head at_ (text_true ▸ begins))
  have numeric : (∃ other ∈ buffer.atOffset.head?, other = minus ∨ isdigit other) ↔ (byte = minus ∨ isdigit byte) := by
    rw [at_]
    simp
  unfold parseValueWith
  simp only [if_neg noNull, if_neg noFalse, if_neg noTrue, shows_iff at_, numeric]
  congr 1
  cases parseString buffer with
  | error fault => rfl
  | ok result =>
    match result with
    | none => rfl
    | some (string, after) => rfl

theorem begins_append {source : Bytes} (at_ : buffer.atOffset = source ++ rest) : buffer.begins source := ⟨rest, at_.symm⟩

theorem scalarText_starts : Starts ScalarText := by
  intro json source isScalar
  cases isScalar with
  | null => exact ⟨110, _, text_null, by decide, by decide, by decide, by decide⟩
  | false => exact ⟨102, _, text_false, by decide, by decide, by decide, by decide⟩
  | true => exact ⟨116, _, text_true, by decide, by decide, by decide, by decide⟩
  | number isNumber =>
    obtain ⟨-, -, head, tail, rfl, kind⟩ := isNumber.scanned
    refine ⟨head, tail, rfl, ?_⟩
    rcases kind with rfl | digit
    · decide
    · simp only [isdigit, decide_eq_true_eq, UInt8.le_iff_toNat_le, UInt8.lt_iff_toNat_lt, UInt8.reduceToNat, ne_eq,
        ← UInt8.toNat_inj, closeBracket, closeBrace] at digit ⊢
      omega
  | string isString =>
    obtain ⟨tail, rfl⟩ := isString.begins
    exact ⟨quote, tail, rfl, by decide, by decide, by decide, by decide⟩

theorem parseValueWith_scalar : Reads ScalarText depth (parseValueWith parseInner) := by
  intro buffer json source rest isScalar at_ shallow follows
  cases isScalar with
  | null => exact if_pos (begins_append at_)
  | false =>
    have noNull : ¬ buffer.begins (text "null") := by
      intro begins
      rw [text_false] at at_
      exact absurd (begins_head at_ (text_null ▸ begins)) (by decide)
    exact (if_neg noNull).trans (if_pos (begins_append at_))
  | true =>
    have noNull : ¬ buffer.begins (text "null") := by
      intro begins
      rw [text_true] at at_
      exact absurd (begins_head at_ (text_null ▸ begins)) (by decide)
    have noFalse : ¬ buffer.begins (text "false") := by
      intro begins
      rw [text_true] at at_
      exact absurd (begins_head at_ (text_false ▸ begins)) (by decide)
    exact (if_neg noNull).trans ((if_neg noFalse).trans (if_pos (begins_append at_)))
  | number isNumber =>
    have parsed := parseNumber_text isNumber at_ follows
    obtain ⟨-, -, head, tail, rfl, kind⟩ := isNumber.scanned
    have plain : head ≠ 110 ∧ head ≠ 102 ∧ head ≠ 116 ∧ head ≠ quote := by
      rcases kind with rfl | digit
      · decide
      · simp only [isdigit, decide_eq_true_eq, UInt8.le_iff_toNat_le, UInt8.reduceToNat, ne_eq, ← UInt8.toNat_inj, quote]
          at digit ⊢
        omega
    rw [parseValueWith_head at_ ⟨plain.1, plain.2.1, plain.2.2.1⟩, if_neg plain.2.2.2, if_pos kind, parsed]
  | string isString =>
    have parsed := parseString_text isString at_
    obtain ⟨tail, rfl⟩ := isString.begins
    rw [parseValueWith_head at_ (by decide), if_pos rfl, parsed]
    rfl

theorem nestedText_starts : Starts (NestedText inner) := by
  intro json source isNested
  cases isNested with
  | scalar isScalar => exact scalarText_starts _ _ isScalar
  | array isArray =>
    cases isArray with
    | empty => exact ⟨openBracket, _, rfl, by decide, by decide, by decide, by decide⟩
    | full => exact ⟨openBracket, _, rfl, by decide, by decide, by decide, by decide⟩
  | object isObject =>
    cases isObject with
    | empty => exact ⟨openBrace, _, rfl, by decide, by decide, by decide, by decide⟩
    | full => exact ⟨openBrace, _, rfl, by decide, by decide, by decide, by decide⟩

theorem BracketedText.begins {A : Type} {element : A → Bytes → Prop} {opening closing : UInt8} {items : List A} {source : Bytes}
    (isBracketed : BracketedText opening closing element items source) : ∃ tail, source = opening :: tail := by
  cases isBracketed <;> exact ⟨_, rfl⟩

theorem parseValueWith_nested (starts : Starts inner) (reads : Reads inner (depth + 1) parseInner)
    (limit : depth < nestingLimit) : Reads (NestedText inner) depth (parseValueWith parseInner) := by
  intro buffer json source rest isNested at_ shallow follows
  cases isNested with
  | scalar isScalar => exact parseValueWith_scalar buffer json source rest isScalar at_ shallow follows
  | array isArray =>
    have parsed := parseArray_text starts reads isArray shallow limit at_
    obtain ⟨tail, rfl⟩ := isArray.begins
    rw [parseValueWith_head at_ (by decide), if_neg (by decide), if_neg (by decide), if_pos rfl, parsed]
  | object isObject =>
    have parsed := parseObject_text starts reads isObject shallow limit at_
    obtain ⟨tail, rfl⟩ := isObject.begins
    rw [parseValueWith_head at_ (by decide), if_neg (by decide), if_neg (by decide), if_neg (by decide), if_pos rfl, parsed]

theorem valueText_starts (levels : Nat) : Starts (ValueText levels) := by
  cases levels with
  | zero => exact scalarText_starts
  | succ levels => exact nestedText_starts

/-- The levels that are left suffice for the text. -/
theorem parseValueAt_text (levels : Nat) {level depth : Nat} (enough : levels ≤ level) (limit : depth + levels ≤ nestingLimit) :
    Reads (ValueText levels) depth (parseValueAt (level + 1)) := by
  induction levels generalizing level depth with
  | zero => exact parseValueWith_scalar
  | succ levels ih =>
    obtain ⟨level, rfl⟩ := Nat.exists_eq_add_of_lt enough
    exact parseValueWith_nested (valueText_starts levels) (ih (Nat.le_add_right ..) (by omega)) (by omega)

end

/-- A mark is skipped where bytes of a value follow, and nothing else is. -/
theorem skipUtf8Bom_text {mark source : Bytes} {head : UInt8} {tail : Bytes} (isMark : mark = [] ∨ mark = [0xEF, 0xBB, 0xBF])
    (begins : source = head :: tail) (ascii : head < 128) (nonempty : tail ≠ []) :
    (skipUtf8Bom ⟨mark ++ source, 0, 0⟩).atOffset = source ∧ (skipUtf8Bom ⟨mark ++ source, 0, 0⟩).depth = 0 := by
  rcases isMark with rfl | rfl
  · have noMark : ¬ ([0xEF, 0xBB, 0xBF] <+: ParseBuffer.atOffset ⟨[] ++ source, 0, 0⟩) := by
      change ¬ ([0xEF, 0xBB, 0xBF] <+: source)
      rw [begins, List.cons_prefix_cons]
      rintro ⟨rfl, -⟩
      exact absurd ascii (by decide)
    rw [skipUtf8Bom, if_neg (fun both => noMark both.2)]
    exact ⟨rfl, rfl⟩
  · have access : ParseBuffer.canAccessAtIndex ⟨[0xEF, 0xBB, 0xBF] ++ source, 0, 0⟩ 4 := by
      have long := List.length_pos_iff.mpr nonempty
      change 0 + 4 < ([0xEF, 0xBB, 0xBF] ++ source).length
      simp only [begins, List.length_append, List.length_cons, List.length_nil]
      omega
    rw [skipUtf8Bom, if_pos ⟨access, List.prefix_append ..⟩]
    exact ⟨rfl, rfl⟩

/-- Every text of the grammar within the nesting limit is read as the tree it denotes. -/
theorem parse_complete {json : Json} {value : Bytes} (isDocument : DocumentText json value) : parse value = .ok (some json) := by
  obtain ⟨isMark, blank, isValue, follows⟩ := isDocument
  rename_i mark blanks source rest
  obtain ⟨head, tail, begins, visible, ascii, -⟩ := valueText_starts _ _ _ isValue
  have follows' : Follows (rest ++ [0]) := by
    cases rest with
    | nil =>
      rintro byte same
      cases same
      decide
    | cons => exact follows
  have first : ∃ head tail, blanks ++ (source ++ (rest ++ [0])) = head :: tail ∧ head < 128 ∧ tail ≠ [] := by
    cases blanks with
    | nil => exact ⟨head, tail ++ (rest ++ [0]), by rw [begins]; rfl, ascii, by simp⟩
    | cons byte blanks =>
      refine ⟨byte, blanks ++ (source ++ (rest ++ [0])), rfl, ?_, by simp⟩
      rcases blank byte (List.mem_cons_self ..) with rfl | rfl | rfl | rfl <;> decide
  obtain ⟨first, more, starts, low, long⟩ := first
  obtain ⟨at_, depth⟩ := skipUtf8Bom_text isMark starts low long
  unfold parse
  simp only [List.append_assoc]
  generalize skipUtf8Bom ⟨mark ++ (blanks ++ (source ++ (rest ++ [0]))), 0, 0⟩ = buffer at at_ depth ⊢
  have skipped : bufferSkipWhitespace buffer = buffer.advance blanks.length := by
    rw [begins] at at_
    exact bufferSkipWhitespace_blank at_ blank visible
  have here : (buffer.advance blanks.length).atOffset = source ++ (rest ++ [0]) := by
    rw [atOffset_advance, at_, List.drop_left]
  have parsed := parseValueAt_text nestingLimit le_rfl (by rw [Nat.zero_add]) (buffer.advance blanks.length) json source
    (rest ++ [0]) isValue here depth follows'
  rw [skipped, parseValue, depth_advance, depth, Nat.sub_zero, parsed, ok_bind]
  rfl

/-- Of a document only the tree is read that it denotes, in any spelling of strings and numbers. -/
theorem parse_document {json : Json} {value : Bytes} (isDocument : DocumentText json value) :
    parse value = .ok (some json) ∧ ∀ other, DocumentText other value → other = json := by
  have parsed := parse_complete isDocument
  refine ⟨parsed, fun other also => ?_⟩
  have again := (parse_complete also).symm.trans parsed
  exact Option.some.inj (Except.ok.inj again)

theorem parse_document_member :
    parse (text "\x7b\"a\\n\": [ -7 ]\x7d\n") = .ok (some (.object [([97, 10], .array [.number (-7)])])) ∧
      ∀ other, DocumentText other (text "\x7b\"a\\n\": [ -7 ]\x7d\n") → other = .object [([97, 10], .array [.number (-7)])] := by
  have seven : NumberText (-7 : Int) [minus, 55] := by
    have spelled : NumberText _ [minus, 55] := .mk true (List.cons_ne_nil 55 []) (forall_mem_of_all (by decide)) .none .none
    have value : (signed true (decimal ([55] ++ [])) : Rat) * 10 ^ ((0 : Int) - ([] : Bytes).length) = (-7 : Int) := by
      have digits : decimal ([55] ++ []) = 7 := by decide
      rw [digits]
      norm_num [signed]
    rwa [value] at spelled
  have number : ScalarText (.number (-7)) [minus, 55] := by
    have scalar := ScalarText.number seven
    rwa [saturated_roundBinary_intCast] at scalar
  have blank : Blank [32] := by simp [Blank, isBlank]
  have none : Blank [] := by simp [Blank]
  have items : Elements (Padded (ValueText 998)) [.number (-7)] ([32] ++ ([minus, 55] ++ [32])) :=
    .last ⟨[32], [minus, 55], [32], rfl, blank, .scalar number, blank⟩
  have characters : Characters [97, 10] [97, backslash, 110] :=
    .plain (by decide) (by decide) (by decide) (.escape .lineFeed .nil)
  have name : StringText [97, 10] (quote :: ([97, backslash, 110] ++ [quote])) := .mk characters
  have array : ValueText 999 (.array [.number (-7)]) (openBracket :: ([32] ++ ([minus, 55] ++ [32]) ++ [closeBracket])) :=
    .array (.full items)
  have members : Elements (Padded (MemberText (ValueText 999))) [([97, 10], .array [.number (-7)])] _ :=
    .last ⟨[], _, [], rfl, none, .mk name none blank array, none⟩
  have follows : Follows [10] := by simp [Follows]; decide
  have isDocument := @DocumentText.mk _ [] [] _ [10] (.inl rfl) none (.object (.full members)) follows
  exact parse_document isDocument

/-- An integer in any spelling, with a fraction or an exponent or more digits than any type of
C holds, is read as the nearest `int`. -/
theorem parse_integer {n : Int} {mark blanks source rest : Bytes} (isMark : mark = [] ∨ mark = [0xEF, 0xBB, 0xBF])
    (blank : Blank blanks) (isNumber : NumberText n source) (follows : ∀ byte ∈ rest.head?, isNumberByte byte = false) :
    parse (mark ++ (blanks ++ (source ++ rest))) = .ok (some (.number (max intMin (min n intMax)))) := by
  have isScalar : ScalarText (.number (max intMin (min n intMax))) source := by
    rw [← saturated_roundBinary_intCast]
    exact .number isNumber
  exact parse_complete (.mk isMark blank (.scalar isScalar) follows)

theorem parse_integer_exponent : parse (text "-3e9,") = .ok (some (.number (-2147483648))) := by
  have number : NumberText (-3000000000 : Int) [minus, 51, 101, 57] := by
    have exponent : ExponentText 9 [101, 57] := .some (.inl rfl) (.unsigned (List.cons_ne_nil 57 []) (forall_mem_of_all (by decide)))
    have spelled := NumberText.mk true (List.cons_ne_nil 51 []) (forall_mem_of_all (by decide)) .none exponent
    have value : (signed true (decimal ([51] ++ [])) : Rat) * 10 ^ ((9 : Int) - ([] : Bytes).length) = (-3000000000 : Int) := by
      have digits : decimal ([51] ++ []) = 3 := by decide
      rw [digits]
      norm_num [signed]
    rwa [value] at spelled
  have blank : Blank [] := by simp [Blank]
  have follows : Follows [44] := by simp [Follows]; decide
  have clamped : max intMin (min (-3000000000) intMax) = -2147483648 := by decide
  have read := parse_integer (.inl rfl) blank number follows
  rwa [clamped] at read

end Trigger.CJson
