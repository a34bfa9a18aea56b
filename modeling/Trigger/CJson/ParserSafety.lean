import Trigger.CJson.Parser
import Trigger.Foundation.Fallible
import Mathlib.Tactic.SplitIfs

/-! The parser on an arbitrary string.

It never reads outside of the buffer and never writes outside of what it allocated for a
string, and what it returns is a tree of C strings and of numbers of type `int`, nested
no deeper than the limit.
-/

set_option autoImplicit false

namespace Trigger.CJson
open Foundation Config

/-- A tree nested at most this deep, in the data types of C. -/
inductive CTree : Nat → Json → Prop where
  | null {levels : Nat} : CTree levels .null
  | false {levels : Nat} : CTree levels .false
  | true {levels : Nat} : CTree levels .true
  | number {levels : Nat} {value : Int} : intMin ≤ value → value ≤ intMax → CTree levels (.number value)
  | string {levels : Nat} {content : Bytes} : 0 ∉ content → CTree levels (.string content)
  | array {levels : Nat} {items : List Json} : (∀ item ∈ items, CTree levels item) → CTree (levels + 1) (.array items)
  | object {levels : Nat} {members : List (Bytes × Json)} :
      (∀ member ∈ members, 0 ∉ member.1) → (∀ member ∈ members, CTree levels member.2) →
        CTree (levels + 1) (.object members)

theorem CTree.mono {fewer more : Nat} {json : Json} (tree : CTree fewer json) (atMost : fewer ≤ more) : CTree more json := by
  induction tree generalizing more with
  | null => exact .null
  | false => exact .false
  | true => exact .true
  | number least most => exact .number least most
  | string noNul => exact .string noNul
  | array _ ih =>
    obtain ⟨levels, rfl⟩ := Nat.exists_eq_add_of_le' atMost
    exact .array fun item within => ih item within (Nat.le_add_left ..)
  | object names _ ih =>
    obtain ⟨levels, rfl⟩ := Nat.exists_eq_add_of_le' atMost
    exact .object names fun member within => ih member within (Nat.le_add_left ..)

/-- A parse that succeeded took at least one byte, and none beyond the end. -/
structure Taken (before after : ParseBuffer) : Prop where
  content : after.content = before.content
  depth : after.depth = before.depth
  onward : before.offset < after.offset
  inside : after.offset ≤ after.length

/-- The parser faults on no buffer, and what it returns holds at the depth of the buffer. -/
def Sound {A : Type} (holds : Nat → A → Prop) (parser : Parse A) : Prop :=
  ∀ buffer, ∃ result, parser buffer = .ok result ∧
    ∀ value after, result = some (value, after) → Taken buffer after ∧ holds buffer.depth value

/-! ## Strings

`input_pointer` may leave the pairs of bytes that the first loop counted: four bytes of a
`\u` are taken whatever they are. It then stands on the second byte of a pair.
-/

/-- What is left of a string: how many bytes, and how many the allocation holds for them. -/
def Ahead (source : Bytes) (left budget : Nat) : Prop :=
  (∃ skipped, closingQuote source = some (left, skipped) ∧ budget + skipped = left) ∨
    ∃ second rest length skipped, source = second :: rest ∧ closingQuote rest = some (length, skipped) ∧
      left = length + 1 ∧ budget + skipped = left

theorem closingQuote_cons {byte : UInt8} {rest : Bytes} {length skipped : Nat}
    (closes : closingQuote (byte :: rest) = some (length, skipped)) :
    (byte = quote ∧ length = 0 ∧ skipped = 0) ∨
      (byte = backslash ∧ ∃ second more length' skipped', rest = second :: more ∧
        closingQuote more = some (length', skipped') ∧ length = length' + 2 ∧ skipped = skipped' + 1) ∨
      (byte ≠ backslash ∧ ∃ length', closingQuote rest = some (length', skipped) ∧ length = length' + 1) := by
  rw [closingQuote.eq_def] at closes
  dsimp only at closes
  split_ifs at closes with isQuote isBackslash
  · cases closes
    exact .inl ⟨isQuote, rfl, rfl⟩
  · cases rest with
    | nil => cases closes
    | cons second more =>
      obtain ⟨⟨length', skipped'⟩, found, same⟩ := Option.map_eq_some_iff.mp closes
      cases same
      exact .inr (.inl ⟨isBackslash, second, more, length', skipped', rfl, found, rfl, rfl⟩)
  · obtain ⟨⟨length', skipped'⟩, found, same⟩ := Option.map_eq_some_iff.mp closes
    cases same
    exact .inr (.inr ⟨isBackslash, length', found, rfl⟩)

theorem closingQuote_bounds {source : Bytes} {length skipped : Nat} (closes : closingQuote source = some (length, skipped)) :
    length < source.length ∧ 2 * skipped ≤ length := by
  induction source using List.twoStepInduction generalizing length skipped with
  | nil => cases closes
  | singleton byte =>
    rcases closingQuote_cons closes with ⟨-, rfl, rfl⟩ | ⟨-, _, _, _, _, same, -⟩ | ⟨-, _, found, -⟩
    · exact ⟨by simp, le_rfl⟩
    · cases same
    · cases found
  | cons_cons first second more ih ihNext =>
    rcases closingQuote_cons closes with ⟨-, rfl, rfl⟩ | ⟨-, _, _, _, _, same, found, rfl, rfl⟩ | ⟨-, _, found, rfl⟩
    · exact ⟨by simp, le_rfl⟩
    · cases same
      have := ih found
      simp only [List.length_cons]
      omega
    · have := ihNext second found
      simp only [List.length_cons] at this ⊢
      omega

section
variable {source rest : Bytes} {first second : UInt8} {left budget : Nat}

theorem Ahead.lt_length (ahead : Ahead source left budget) : left < source.length := by
  rcases ahead with ⟨_, closes, -⟩ | ⟨_, rest, _, _, rfl, closes, rfl, -⟩
  · exact (closingQuote_bounds closes).1
  · have := (closingQuote_bounds closes).1
    simp only [List.length_cons]
    omega

theorem Ahead.positive (ahead : Ahead source (left + 1) budget) : 0 < budget := by
  rcases ahead with ⟨_, closes, same⟩ | ⟨_, _, _, _, -, closes, count, same⟩
  · have := (closingQuote_bounds closes).2
    omega
  · have := (closingQuote_bounds closes).2
    omega

theorem Ahead.one (ahead : Ahead (first :: rest) (left + 1) budget) (plain : first ≠ backslash) :
    ∃ smaller, Ahead rest left smaller ∧ smaller + 1 ≤ budget := by
  rcases ahead with ⟨skipped, closes, same⟩ | ⟨_, _, length, skipped, shape, closes, count, same⟩
  · have bounds := closingQuote_bounds closes
    rcases closingQuote_cons closes with ⟨-, zero, -⟩ | ⟨slash, -⟩ | ⟨-, length, found, count⟩
    · cases zero
    · exact absurd slash plain
    · cases Nat.succ.inj count
      have := closingQuote_bounds found
      exact ⟨left - skipped, .inl ⟨skipped, found, by omega⟩, by omega⟩
  · cases shape
    cases Nat.succ.inj count
    have := closingQuote_bounds closes
    exact ⟨left - skipped, .inl ⟨skipped, closes, by omega⟩, by omega⟩

/-- Two bytes take a unit of the first loop at least, from whichever byte of a pair. -/
theorem Ahead.two (ahead : Ahead (first :: second :: rest) (left + 2) budget) :
    ∃ smaller, Ahead rest left smaller ∧ smaller + 1 ≤ budget := by
  -- From the start of a unit behind the first byte.
  have behindFirst {skipped length : Nat} (closes : closingQuote (second :: rest) = some (length, skipped))
      (count : length = left + 1) : ∃ smaller, Ahead rest left smaller ∧ smaller + skipped ≤ left + 1 := by
    rcases closingQuote_cons closes with ⟨-, zero, -⟩ | ⟨-, third, more, length', skipped', rfl, found, same, rfl⟩ |
      ⟨-, length', found, same⟩
    · omega
    · have := closingQuote_bounds found
      exact ⟨left - skipped', .inr ⟨third, more, length', skipped', rfl, found, by omega, by omega⟩, by omega⟩
    · have := closingQuote_bounds found
      obtain rfl : length' = left := by omega
      exact ⟨length' - skipped, .inl ⟨skipped, found, by omega⟩, by omega⟩
  rcases ahead with ⟨skipped, closes, same⟩ | ⟨_, _, length, skipped, shape, closes, count, same⟩
  · rcases closingQuote_cons closes with ⟨-, zero, -⟩ | ⟨-, _, _, length', skipped', shape, found, count, rfl⟩ |
      ⟨-, length', found, count⟩
    · omega
    · cases shape
      have := closingQuote_bounds found
      obtain rfl : length' = left := by omega
      exact ⟨length' - skipped', .inl ⟨skipped', found, by omega⟩, by omega⟩
    · obtain ⟨smaller, ahead, bound⟩ := behindFirst found (by omega)
      exact ⟨smaller, ahead, by omega⟩
  · cases shape
    obtain ⟨smaller, ahead, bound⟩ := behindFirst closes (by omega)
    exact ⟨smaller, ahead, by omega⟩

theorem Ahead.pairs (count : Nat) (ahead : Ahead source (left + 2 * count) budget) :
    ∃ smaller, Ahead (source.drop (2 * count)) left smaller ∧ smaller + count ≤ budget := by
  induction count generalizing source budget with
  | zero => exact ⟨budget, ahead, le_rfl⟩
  | succ count ih =>
    have room := ahead.lt_length
    match source, room with
    | [], room => simp at room
    | [_], room => simp only [List.length_singleton] at room; omega
    | first :: second :: rest, _ =>
      obtain ⟨smaller, later, bound⟩ := @Ahead.two _ _ _ (left + 2 * count) _ ahead
      obtain ⟨smallest, last, also⟩ := ih later
      exact ⟨smallest, last, by omega⟩

end

theorem hexDigit_lt {byte : UInt8} {value : Nat} (digit : hexDigit byte = some value) : value < 16 := by
  unfold hexDigit at digit
  simp only [UInt8.le_iff_toNat_le, UInt8.reduceToNat] at digit
  split_ifs at digit <;> cases digit <;> omega

theorem parseHex4_ok (source : Bytes) (room : 4 ≤ source.length) : ∃ code, parseHex4 source = .ok code ∧ code < 0x10000 := by
  match source, room with
  | [], room | [_], room | [_, _], room | [_, _, _], room => simp at room
  | a :: b :: c :: d :: rest, _ =>
    unfold parseHex4
    dsimp only
    split
    · rename_i a b c d isA isB isC isD
      have := hexDigit_lt isA
      have := hexDigit_lt isB
      have := hexDigit_lt isC
      have := hexDigit_lt isD
      exact ⟨_, rfl, by omega⟩
    · exact ⟨0, rfl, by omega⟩

theorem length_encodeUtf8 {codepoint : Nat} {bytes : Bytes} (encoded : encodeUtf8 codepoint = some bytes) :
    bytes.length ≤ 4 ∧ (codepoint < 0x10000 → bytes.length ≤ 3) := by
  unfold encodeUtf8 at encoded
  split_ifs at encoded <;> cases encoded <;> simp
  all_goals omega

theorem utf16LiteralToUtf8_ok {source : Bytes} {available : Nat} (room : available < source.length) :
    ∃ result, utf16LiteralToUtf8 source available = .ok result ∧
      ∀ length bytes, result = some (length, bytes) →
        ∃ pairs, length = 2 * pairs ∧ 0 < pairs ∧ length ≤ available ∧ bytes.length ≤ pairs := by
  unfold utf16LiteralToUtf8
  by_cases short : available < 6
  · exact ⟨none, by rw [if_pos short]; rfl, fun _ _ same => by cases same⟩
  obtain ⟨firstCode, first, small⟩ := parseHex4_ok (source.drop 2) (by rw [List.length_drop]; omega)
  rw [if_neg short, first]
  change ∃ result, (if 0xDC00 ≤ firstCode ∧ firstCode ≤ 0xDFFF then _ else _) = _ ∧ _
  -- A low surrogate must not come first.
  by_cases low : 0xDC00 ≤ firstCode ∧ firstCode ≤ 0xDFFF
  · exact ⟨none, by rw [if_pos low]; rfl, fun _ _ same => by cases same⟩
  rw [if_neg low]
  by_cases high : 0xD800 ≤ firstCode ∧ firstCode ≤ 0xDBFF
  · rw [if_pos high]
    by_cases shortSecond : available - 6 < 6
    · exact ⟨none, by rw [if_pos shortSecond]; rfl, fun _ _ same => by cases same⟩
    rw [if_neg shortSecond]
    have behind : 7 ≤ (source.drop 6).length := by rw [List.length_drop]; omega
    -- Of the pair the code reads the two bytes of the second escape before it knows that they are one.
    match source.drop 6, behind with
    | [], behind | [_], behind => simp at behind
    | slash :: letter :: second, behind =>
      simp only [List.length_cons] at behind
      obtain ⟨secondCode, found, -⟩ := parseHex4_ok second (by omega)
      dsimp only
      by_cases sequence : slash = backslash ∧ letter = 117
      · rw [if_pos sequence, found]
        change ∃ result, (if secondCode < 0xDC00 ∨ 0xDFFF < secondCode then _ else _) = _ ∧ _
        by_cases invalid : secondCode < 0xDC00 ∨ 0xDFFF < secondCode
        · exact ⟨none, by rw [if_pos invalid]; rfl, fun _ _ same => by cases same⟩
        · rw [if_neg invalid]
          refine ⟨_, rfl, fun length bytes same => ?_⟩
          obtain ⟨encoded, utf8, pair⟩ := Option.map_eq_some_iff.mp same
          cases pair
          exact ⟨6, rfl, by omega, by omega, (length_encodeUtf8 utf8).1.trans (by omega)⟩
      · exact ⟨none, by rw [if_neg sequence]; rfl, fun _ _ same => by cases same⟩
  · rw [if_neg high]
    refine ⟨_, rfl, fun length bytes same => ?_⟩
    obtain ⟨encoded, found, pair⟩ := Option.map_eq_some_iff.mp same
    cases pair
    exact ⟨3, rfl, by omega, by omega, (length_encodeUtf8 found).2 small⟩

theorem put_ok {capacity : Nat} {output bytes : Bytes} (room : output.length + bytes.length ≤ capacity) :
    put capacity output bytes = .ok (output ++ bytes) := if_pos room

theorem unescape_zero (capacity : Nat) (source output : Bytes) :
    unescape capacity source 0 output = .ok (some output) := by
  rw [unescape.eq_def, if_pos rfl]

/-- The loop ends, and the string it wrote is no longer than this. -/
def Within (limit : Nat) (loop : Except Fault (Option Bytes)) : Prop :=
  ∃ result, loop = .ok result ∧ ∀ bytes, result = some bytes → bytes.length ≤ limit

theorem within_none (limit : Nat) : Within limit (.ok none) := ⟨none, rfl, nofun⟩

theorem within_put {capacity budget smaller : Nat} {output bytes : Bytes} {next : Bytes → Except Fault (Option Bytes)}
    (room : output.length + budget ≤ capacity) (budgeted : bytes.length + smaller ≤ budget)
    (goesOn : Within ((output ++ bytes).length + smaller) (next (output ++ bytes))) :
    Within (output.length + budget) (put capacity output bytes >>= next) := by
  obtain ⟨result, found, fits⟩ := goesOn
  rw [put_ok (by omega)]
  refine ⟨result, found, fun written same => (fits written same).trans ?_⟩
  rw [List.length_append]
  omega

/-- Behind a pair of bytes, which may be passed together with the closing quote, by one byte. -/
theorem Ahead.pair {first second : UInt8} {behind : Bytes} {left budget : Nat}
    (ahead : Ahead (first :: second :: behind) left budget) (more : left ≠ 0) :
    ∃ smaller, 1 + smaller ≤ budget ∧ (left - 2 = 0 ∧ smaller = 0 ∨ Ahead behind (left - 2) smaller) := by
  rcases left with _ | _ | left
  · exact absurd rfl more
  · exact ⟨0, ahead.positive, .inl ⟨rfl, rfl⟩⟩
  · obtain ⟨smaller, later, bound⟩ := ahead.two
    exact ⟨smaller, by omega, .inr later⟩

/-- The bytes written fit what the first loop counted. -/
theorem unescape_ok (capacity left : Nat) {source : Bytes} (output : Bytes) {budget : Nat} (ahead : Ahead source left budget)
    (room : output.length + budget ≤ capacity) :
    Within (output.length + budget) (unescape capacity source left output) := by
  induction left using Nat.strong_induction_on generalizing source output budget with
  | _ left ih =>
    -- What is left of the budget has room behind the bytes that were written.
    have goesOn {less smaller : Nat} {source bytes : Bytes} (fewer : less < left) (later : Ahead source less smaller)
        (budgeted : bytes.length + smaller ≤ budget) :
        Within ((output ++ bytes).length + smaller) (unescape capacity source less (output ++ bytes)) := by
      refine ih less fewer (output ++ bytes) later ?_
      rw [List.length_append]
      omega
    rw [unescape.eq_def]
    by_cases ended : left = 0
    · rw [if_pos ended]
      exact ⟨some output, rfl, fun bytes same => by cases same; exact Nat.le_add_right ..⟩
    rw [if_neg ended]
    have long := ahead.lt_length
    cases source with
    | nil => simp at long
    | cons byte rest =>
      dsimp only
      by_cases plain : byte ≠ backslash
      · obtain ⟨before, rfl⟩ := Nat.exists_eq_succ_of_ne_zero ended
        obtain ⟨smaller, later, bound⟩ := ahead.one plain
        have budgeted : [byte].length + smaller ≤ budget := by
          rw [List.length_singleton]
          omega
        rw [if_pos plain]
        exact within_put room budgeted (goesOn (Nat.lt_succ_self _) later budgeted)
      · rw [if_neg plain]
        cases rest with
        | nil => simp at long; omega
        | cons letter behind =>
          dsimp only
          cases simple : simpleEscape letter with
          | some escaped =>
            obtain ⟨smaller, budgeted, stops | later⟩ := ahead.pair ended
            · refine within_put room budgeted ?_
              rw [stops.1, unescape_zero]
              exact ⟨_, rfl, fun bytes same => by cases same; exact Nat.le_add_right ..⟩
            · exact within_put room budgeted (goesOn (by omega) later budgeted)
          | none =>
            dsimp only
            by_cases literal : letter = 117
            · rw [if_pos literal]
              obtain ⟨result, converted, shape⟩ := utf16LiteralToUtf8_ok long
              rw [converted]
              match result with
              | none => exact within_none _
              | some (0, _) => exact within_none _
              | some (length + 1, bytes) =>
                obtain ⟨pairs, count, -, inside, fits⟩ := shape (length + 1) bytes rfl
                have split : left = (left - 2 * pairs) + 2 * pairs := by omega
                obtain ⟨smaller, later, bound⟩ := Ahead.pairs pairs (split ▸ ahead)
                have budgeted : bytes.length + smaller ≤ budget := by omega
                refine within_put room budgeted ?_
                have dropped : (letter :: behind).drop length = (byte :: letter :: behind).drop (2 * pairs) := by
                  rw [← count, List.drop_succ_cons]
                rw [dropped, count]
                exact goesOn (by omega) later budgeted
            · rw [if_neg literal]
              exact within_none _

section
variable {before middle after buffer : ParseBuffer}

theorem Taken.trans (first : Taken before middle) (second : Taken middle after) : Taken before after :=
  ⟨second.content.trans first.content, second.depth.trans first.depth, first.onward.trans second.onward, second.inside⟩

theorem length_atOffset (buffer : ParseBuffer) : buffer.atOffset.length = buffer.length - buffer.offset := List.length_drop

theorem Taken.advance {count : Nat} (positive : 0 < count) (inside : buffer.offset + count ≤ buffer.length) :
    Taken buffer (buffer.advance count) := ⟨rfl, rfl, Nat.lt_add_of_pos_right positive, inside⟩

theorem byteAt_ok {index : Nat} (access : buffer.canAccessAtIndex index) : ∃ byte, buffer.byteAt index = .ok byte := by
  have found := List.getElem?_eq_getElem access
  exact ⟨_, by rw [ParseBuffer.byteAt, found]⟩

theorem offset_lt_of_shows {byte : UInt8} (shown : buffer.shows byte) : buffer.offset < buffer.length := by
  by_contra outside
  have empty : buffer.atOffset = [] := List.drop_eq_nil_of_le (Nat.not_lt.mp outside)
  rw [ParseBuffer.shows, empty] at shown
  cases shown

theorem bufferSkipWhitespace_of_access (access : buffer.canAccessAtIndex 0) : ∃ offset,
    bufferSkipWhitespace buffer = { buffer with offset } ∧ buffer.offset ≤ offset ∧ offset < buffer.length := by
  have few : (buffer.atOffset.takeWhile (· ≤ 32)).length ≤ buffer.length - buffer.offset :=
    (List.takeWhile_sublist _).length_le.trans (length_atOffset buffer).le
  rw [bufferSkipWhitespace, if_pos access]
  generalize (buffer.atOffset.takeWhile (· ≤ 32)).length = count at few ⊢
  have started : buffer.offset < buffer.length := access
  by_cases ended : (buffer.advance count).offset = (buffer.advance count).length
  · have same : buffer.offset + count = buffer.length := ended
    exact ⟨buffer.offset + count - 1, if_pos ended, by omega, by omega⟩
  · have apart : buffer.offset + count ≠ buffer.length := ended
    exact ⟨buffer.offset + count, if_neg ended, by omega, by omega⟩

theorem bufferSkipWhitespace_of_end (ended : ¬ buffer.canAccessAtIndex 0) : bufferSkipWhitespace buffer = buffer :=
  if_neg ended

@[simp] theorem bufferSkipWhitespace_depth (buffer : ParseBuffer) : (bufferSkipWhitespace buffer).depth = buffer.depth := by
  by_cases access : buffer.canAccessAtIndex 0
  · obtain ⟨offset, same, -⟩ := bufferSkipWhitespace_of_access access
    rw [same]
  · rw [bufferSkipWhitespace_of_end access]

theorem Taken.ofSkip (taken : Taken (bufferSkipWhitespace before) after) : Taken before after := by
  by_cases access : before.canAccessAtIndex 0
  · obtain ⟨offset, same, onward, inside⟩ := bufferSkipWhitespace_of_access access
    rw [same] at taken
    exact ⟨taken.content, taken.depth, onward.trans_lt taken.onward, taken.inside⟩
  · rwa [bufferSkipWhitespace_of_end access] at taken

theorem Taken.ofAdvance {count : Nat} (taken : Taken (before.advance count) after) : Taken before after :=
  ⟨taken.content, taken.depth, (Nat.le_add_right ..).trans_lt taken.onward, taken.inside⟩

theorem Taken.close (taken : Taken { before with depth := before.depth + 1 } after) (inside : after.offset < after.length) :
    Taken before { after.advance 1 with depth := after.depth - 1 } := by
  refine ⟨taken.content, ?_, Nat.lt_succ_of_lt taken.onward, inside⟩
  change after.depth - 1 = before.depth
  rw [taken.depth]
  rfl

theorem Taken.skip (taken : Taken before after) : Taken before (bufferSkipWhitespace after) := by
  by_cases access : after.canAccessAtIndex 0
  · obtain ⟨offset, same, onward, inside⟩ := bufferSkipWhitespace_of_access access
    rw [same]
    exact ⟨taken.content, taken.depth, taken.onward.trans_le onward, Nat.le_of_lt inside⟩
  · rwa [bufferSkipWhitespace_of_end access]

end

theorem parseString_sound (buffer : ParseBuffer) (access : buffer.canAccessAtIndex 0) :
    ∃ result, parseString buffer = .ok result ∧
      ∀ string after, result = some (string, after) → Taken buffer after ∧ 0 ∉ string := by
  obtain ⟨byte, read⟩ := byteAt_ok access
  unfold parseString
  rw [read]
  change ∃ result, (if byte ≠ quote then _ else _) = _ ∧ _
  by_cases opened : byte ≠ quote
  · exact ⟨none, by rw [if_pos opened]; rfl, fun _ _ same => by cases same⟩
  rw [if_neg opened]
  cases closes : closingQuote (buffer.atOffset.drop 1) with
  | none => exact ⟨none, rfl, fun _ _ same => by cases same⟩
  | some counted =>
    obtain ⟨length, skipped⟩ := counted
    have bounds := closingQuote_bounds closes
    obtain ⟨result, unescaped, fits⟩ := unescape_ok (length + 1 - skipped + 1) length []
      (.inl ⟨skipped, closes, Nat.sub_add_cancel (by omega)⟩) (by simp only [List.length_nil]; omega)
    dsimp only
    rw [unescaped]
    cases result with
    | none => exact ⟨none, rfl, fun _ _ same => by cases same⟩
    | some output =>
      have short := fits output rfl
      simp only [List.length_nil] at short
      change ∃ result, (put (length + 1 - skipped + 1) output [0] >>= fun terminated =>
        pure (some (cString terminated, buffer.advance (length + 2)))) = _ ∧ _
      rw [put_ok (by simp only [List.length_singleton]; omega)]
      refine ⟨_, rfl, fun string after same => ?_⟩
      cases same
      have room := length_atOffset buffer
      rw [List.length_drop] at bounds
      refine ⟨.advance (by omega) (by omega), fun zero => ?_⟩
      simpa using List.mem_takeWhile_imp zero

theorem length_splitSign_le (source : Bytes) : (splitSign source).2.length ≤ source.length := by
  cases source with
  | nil => exact le_rfl
  | cons head rest =>
    unfold splitSign
    dsimp only
    split_ifs <;> simp

theorem length_digits (source : Bytes) :
    (source.takeWhile isdigit).length + (source.dropWhile isdigit).length = source.length := by
  rw [← List.length_append, List.takeWhile_append_dropWhile]

theorem length_scanExponent_le (source : Bytes) : (scanExponent source).2.length ≤ source.length := by
  cases source with
  | nil => exact le_rfl
  | cons mark rest =>
    unfold scanExponent
    have signed := length_splitSign_le rest
    have digits := length_digits (splitSign rest).2
    dsimp only
    split_ifs <;> simp only [List.length_cons] <;> omega

theorem length_scanFraction_le (source : Bytes) :
    (scanFraction source).1.length + (scanFraction source).2.length ≤ source.length := by
  cases source with
  | nil => exact le_rfl
  | cons mark rest =>
    unfold scanFraction
    have digits := length_digits rest
    dsimp only
    split_ifs <;> simp only [List.length_cons, List.length_nil] <;> omega

theorem strtod_used {source : Bytes} {number : Rat} {used : Nat} (scanned : strtod source = some (number, used)) :
    0 < used ∧ used ≤ source.length := by
  have signed := length_splitSign_le source
  have whole := length_digits (splitSign source).2
  have fraction := length_scanFraction_le ((splitSign source).2.dropWhile isdigit)
  have exponent := length_scanExponent_le (scanFraction ((splitSign source).2.dropWhile isdigit)).2
  unfold strtod at scanned
  dsimp only at scanned
  split_ifs at scanned with empty
  cases scanned
  rw [not_and_or, ← ne_eq, ← ne_eq, ← List.length_pos_iff, ← List.length_pos_iff] at empty
  omega

theorem le_truncate {number : Rat} {bound : Int} (below : (bound : Rat) ≤ number) : bound ≤ truncate number := by
  unfold truncate
  split_ifs with negative
  · exact Int.le_floor.mpr below
  · exact_mod_cast below.trans (Int.le_ceil number)

theorem truncate_le {number : Rat} {bound : Int} (above : number ≤ bound) : truncate number ≤ bound := by
  unfold truncate
  split_ifs with negative
  · exact_mod_cast (Int.floor_le number).trans above
  · exact Int.ceil_le.mpr above

theorem saturated_bounds (number : Rat) : intMin ≤ saturated number ∧ saturated number ≤ intMax := by
  unfold saturated
  split_ifs with large small
  · decide
  · decide
  · rw [not_le] at large small
    exact ⟨le_truncate small.le, truncate_le large.le⟩

theorem parseNumber_sound {buffer after : ParseBuffer} {json : Json} (parsed : parseNumber buffer = some (json, after)) :
    Taken buffer after ∧ ∀ levels, CTree levels json := by
  obtain ⟨⟨number, used⟩, scanned, same⟩ := Option.map_eq_some_iff.mp parsed
  cases same
  obtain ⟨positive, few⟩ := strtod_used scanned
  have room := (few.trans (List.takeWhile_sublist _).length_le).trans (length_atOffset buffer).le
  obtain ⟨least, most⟩ := saturated_bounds number
  exact ⟨.advance positive (by omega), fun levels => .number least most⟩

theorem begins_taken {buffer : ParseBuffer} {literal : Bytes} (begins : buffer.begins literal) (nonempty : 0 < literal.length) :
    Taken buffer (buffer.advance literal.length) := by
  have room := begins.length_le.trans (length_atOffset buffer).le
  exact .advance nonempty (by omega)

section
variable {A : Type} {holds : Nat → A → Prop} {parseElement : Parse A}

theorem parseElements_sound (element : Sound holds parseElement) (fuel : Nat) (items : List A) (buffer : ParseBuffer)
    (inside : buffer.offset ≤ buffer.length) (enough : buffer.length < buffer.offset + fuel) :
    ∃ result, parseElements parseElement fuel items buffer = .ok result ∧
      ∀ values after, result = some (values, after) → Taken buffer after ∧
        ∃ more, values = items ++ more ∧ ∀ value ∈ more, holds buffer.depth value := by
  induction fuel generalizing items buffer with
  | zero => exact absurd enough (by omega)
  | succ fuel ih =>
    obtain ⟨result, parsed, sound⟩ := element buffer
    rw [parseElements, parsed]
    match result with
    | none => exact ⟨none, rfl, fun _ _ same => by cases same⟩
    | some (item, middle) =>
      obtain ⟨taken, holdsItem⟩ := sound item middle rfl
      have skipped := taken.skip
      change ∃ result, (if (bufferSkipWhitespace middle).shows comma then _ else _) = _ ∧ _
      by_cases more : (bufferSkipWhitespace middle).shows comma
      · have same : (bufferSkipWhitespace middle).length = buffer.length := congrArg List.length skipped.content
        obtain ⟨result, found, later⟩ := ih (items ++ [item]) (bufferSkipWhitespace middle) skipped.inside (by have := skipped.onward; omega)
        rw [if_pos more]
        refine ⟨result, found, fun values after same => ?_⟩
        obtain ⟨rest, others, rfl, all⟩ := later values after same
        refine ⟨skipped.trans rest, item :: others, by rw [List.append_assoc]; rfl, ?_⟩
        rw [skipped.depth] at all
        exact List.forall_mem_cons.mpr ⟨holdsItem, all⟩
      · rw [if_neg more]
        refine ⟨_, rfl, fun values after same => ?_⟩
        cases same
        exact ⟨skipped, [item], rfl, by simpa using holdsItem⟩

theorem parseBracketed_sound (element : Sound holds parseElement) (opens : ParseBuffer → Except Fault Bool) (closing : UInt8)
    {buffer : ParseBuffer} (access : buffer.canAccessAtIndex 0)
    (opened : ∃ answer, opens { buffer with depth := buffer.depth + 1 } = .ok answer) :
    ∃ result, parseBracketed opens closing parseElement buffer = .ok result ∧
      ∀ values after, result = some (values, after) → Taken buffer after ∧ buffer.depth < nestingLimit ∧
        ∀ value ∈ values, holds (buffer.depth + 1) value := by
  unfold parseBracketed
  by_cases deep : nestingLimit ≤ buffer.depth
  · exact ⟨none, by rw [if_pos deep]; rfl, fun _ _ same => by cases same⟩
  obtain ⟨answer, asked⟩ := opened
  rw [if_neg deep]
  dsimp only
  rw [asked]
  cases answer with
  | false => exact ⟨none, rfl, fun _ _ same => by cases same⟩
  | true =>
    -- The opening byte is taken, so the cursor may step back one before the first element.
    have entered : Taken { buffer with depth := buffer.depth + 1 } ({ buffer with depth := buffer.depth + 1 }.advance 1) :=
      .advance Nat.one_pos access
    have skipped := entered.skip
    generalize bufferSkipWhitespace ({ buffer with depth := buffer.depth + 1 }.advance 1) = inner at skipped ⊢
    change ∃ result, (if inner.shows closing then _ else _) = _ ∧ _
    by_cases empty : inner.shows closing
    · rw [if_pos empty]
      refine ⟨_, rfl, fun values after same => ?_⟩
      cases same
      exact ⟨skipped.close (offset_lt_of_shows empty), Nat.not_le.mp deep, by simp⟩
    rw [if_neg empty]
    by_cases ended : ¬ inner.canAccessAtIndex 0
    · exact ⟨none, by rw [if_pos ended]; rfl, fun _ _ same => by cases same⟩
    rw [if_neg ended]
    rw [not_not] at ended
    have before : inner.offset < inner.length := ended
    have onward := skipped.onward
    obtain ⟨result, parsed, sound⟩ := parseElements_sound element (inner.length + 1) [] inner.back
      (Nat.le_of_lt (Nat.lt_of_le_of_lt (Nat.sub_le ..) before)) (by change inner.length < inner.offset - 1 + (inner.length + 1); omega)
    rw [parsed]
    match result with
    | none => exact ⟨none, rfl, fun _ _ same => by cases same⟩
    | some (values, last) =>
      obtain ⟨taken, more, rfl, all⟩ := sound values last rfl
      change ∃ result, (if ¬ last.shows closing then _ else _) = _ ∧ _
      by_cases unclosed : ¬ last.shows closing
      · exact ⟨none, by rw [if_pos unclosed]; rfl, fun _ _ same => by cases same⟩
      · rw [if_neg unclosed]
        rw [not_not] at unclosed
        refine ⟨_, rfl, fun values after same => ?_⟩
        cases same
        have whole : Taken { buffer with depth := buffer.depth + 1 } last := by
          refine ⟨taken.content.trans skipped.content, taken.depth.trans skipped.depth, ?_, taken.inside⟩
          have later : inner.offset - 1 < last.offset := taken.onward
          have first : buffer.offset < inner.offset := onward
          change buffer.offset < last.offset
          omega
        refine ⟨whole.close (offset_lt_of_shows unclosed), Nat.not_le.mp deep, fun value member => ?_⟩
        have held := all value member
        rwa [show inner.back.depth = buffer.depth + 1 from skipped.depth] at held

end

def Remaining (depth : Nat) (json : Json) : Prop := CTree (nestingLimit - depth) json

section
variable {parseInner : Parse Json}

theorem remaining_of_deeper {depth : Nat} (shallow : depth < nestingLimit) {json : Json}
    (tree : CTree (nestingLimit - (depth + 1) + 1) json) : Remaining depth json := by
  rwa [show nestingLimit - (depth + 1) + 1 = nestingLimit - depth by omega] at tree

theorem parseItem_sound (inner : Sound Remaining parseInner) : Sound Remaining (parseItem parseInner) := by
  intro buffer
  obtain ⟨result, parsed, sound⟩ := inner (bufferSkipWhitespace (buffer.advance 1))
  refine ⟨result, parsed, fun value after same => ?_⟩
  obtain ⟨taken, holds⟩ := sound value after same
  refine ⟨taken.ofSkip.ofAdvance, ?_⟩
  rwa [bufferSkipWhitespace_depth] at holds

theorem parseArray_sound (inner : Sound Remaining parseInner) {buffer : ParseBuffer} (access : buffer.canAccessAtIndex 0) :
    ∃ result, parseArray parseInner buffer = .ok result ∧
      ∀ json after, result = some (json, after) → Taken buffer after ∧ Remaining buffer.depth json := by
  obtain ⟨byte, read⟩ := byteAt_ok access
  obtain ⟨result, parsed, sound⟩ := parseBracketed_sound (parseItem_sound inner)
    (fun buffer => (buffer.byteAt 0).map (· = openBracket)) closeBracket access ⟨_, congrArg (Except.map _) read⟩
  unfold parseArray
  rw [parsed]
  match result with
  | none => exact ⟨none, rfl, fun _ _ same => by cases same⟩
  | some (items, last) =>
    obtain ⟨taken, shallow, all⟩ := sound items last rfl
    refine ⟨_, rfl, fun json after same => ?_⟩
    cases same
    exact ⟨taken, remaining_of_deeper shallow (.array all)⟩

theorem parseMember_sound (inner : Sound Remaining parseInner) :
    Sound (fun depth member => 0 ∉ member.1 ∧ Remaining depth member.2) (parseMember parseInner) := by
  intro buffer
  unfold parseMember
  by_cases ended : ¬ buffer.canAccessAtIndex 1
  · exact ⟨none, by rw [if_pos ended]; rfl, fun _ _ same => by cases same⟩
  rw [if_neg ended]
  rw [not_not] at ended
  have access : (buffer.advance 1).canAccessAtIndex 0 := ended
  obtain ⟨offset, same, onward, inside⟩ := bufferSkipWhitespace_of_access access
  obtain ⟨result, parsed, sound⟩ := parseString_sound (bufferSkipWhitespace (buffer.advance 1)) (same ▸ inside)
  rw [parsed]
  match result with
  | none => exact ⟨none, rfl, fun _ _ same => by cases same⟩
  | some (name, named) =>
    obtain ⟨takenName, noNul⟩ := sound name named rfl
    have named' := takenName.ofSkip.ofAdvance.skip
    change ∃ result, (if ¬ (bufferSkipWhitespace named).shows colon then _ else _) = _ ∧ _
    by_cases apart : ¬ (bufferSkipWhitespace named).shows colon
    · exact ⟨none, by rw [if_pos apart]; rfl, fun _ _ same => by cases same⟩
    rw [if_neg apart]
    obtain ⟨result, parsed, sound⟩ := inner (bufferSkipWhitespace ((bufferSkipWhitespace named).advance 1))
    rw [parsed]
    match result with
    | none => exact ⟨none, rfl, fun _ _ same => by cases same⟩
    | some (value, last) =>
      obtain ⟨taken, holds⟩ := sound value last rfl
      refine ⟨_, rfl, fun member after same => ?_⟩
      cases same
      refine ⟨named'.trans taken.ofSkip.ofAdvance, noNul, ?_⟩
      rw [bufferSkipWhitespace_depth] at holds
      rwa [show ((bufferSkipWhitespace named).advance 1).depth = buffer.depth from named'.depth] at holds

theorem parseObject_sound (inner : Sound Remaining parseInner) {buffer : ParseBuffer} (access : buffer.canAccessAtIndex 0) :
    ∃ result, parseObject parseInner buffer = .ok result ∧
      ∀ json after, result = some (json, after) → Taken buffer after ∧ Remaining buffer.depth json := by
  obtain ⟨result, parsed, sound⟩ := parseBracketed_sound (parseMember_sound inner)
    (fun buffer => .ok (buffer.shows openBrace)) closeBrace access ⟨_, rfl⟩
  unfold parseObject
  rw [parsed]
  match result with
  | none => exact ⟨none, rfl, fun _ _ same => by cases same⟩
  | some (members, last) =>
    obtain ⟨taken, shallow, all⟩ := sound members last rfl
    refine ⟨_, rfl, fun json after same => ?_⟩
    cases same
    exact ⟨taken, remaining_of_deeper shallow (.object (fun member within => (all member within).1)
      fun member within => (all member within).2)⟩

theorem parseValueWith_sound (inner : Sound Remaining parseInner) : Sound Remaining (parseValueWith parseInner) := by
  intro buffer
  have access {byte : UInt8} (shown : buffer.shows byte) : buffer.canAccessAtIndex 0 := offset_lt_of_shows shown
  unfold parseValueWith
  split_ifs with isNull isFalse isTrue isString isNumber isArray isObject
  · refine ⟨_, rfl, fun json after same => ?_⟩
    cases same
    exact ⟨begins_taken isNull (by decide), .null⟩
  · refine ⟨_, rfl, fun json after same => ?_⟩
    cases same
    exact ⟨begins_taken isFalse (by decide), .false⟩
  · refine ⟨_, rfl, fun json after same => ?_⟩
    cases same
    exact ⟨begins_taken isTrue (by decide), .true⟩
  · obtain ⟨result, parsed, sound⟩ := parseString_sound buffer (access isString)
    rw [parsed]
    match result with
    | none => exact ⟨none, rfl, fun _ _ same => by cases same⟩
    | some (string, last) =>
      obtain ⟨taken, noNul⟩ := sound string last rfl
      refine ⟨_, rfl, fun json after same => ?_⟩
      cases same
      exact ⟨taken, .string noNul⟩
  · exact ⟨_, rfl, fun json after same => ⟨(parseNumber_sound same).1, (parseNumber_sound same).2 _⟩⟩
  · exact parseArray_sound inner (access isArray)
  · exact parseObject_sound inner (access isObject)
  · exact ⟨none, rfl, fun _ _ same => by cases same⟩

theorem parseValueAt_sound (level : Nat) : Sound Remaining (parseValueAt level) := by
  induction level with
  | zero => exact fun buffer => ⟨none, rfl, fun _ _ same => by cases same⟩
  | succ level ih => exact parseValueWith_sound ih

end

/-- Parsing ends on every string without an access outside of its memory, and what it
returns is a tree of C data within the nesting limit. -/
theorem parse_sound (value : Bytes) : ∃ result, parse value = .ok result ∧ ∀ json ∈ result, CTree nestingLimit json := by
  let start := bufferSkipWhitespace (skipUtf8Bom ⟨value ++ [0], 0, 0⟩)
  obtain ⟨result, parsed, sound⟩ := parseValueAt_sound (nestingLimit + 1 - start.depth) start
  have shallow : start.depth = 0 := by
    rw [bufferSkipWhitespace_depth, skipUtf8Bom]
    split_ifs <;> rfl
  unfold parse parseValue
  rw [parsed]
  match result with
  | none => exact ⟨none, rfl, fun _ same => by cases same⟩
  | some (json, after) =>
    refine ⟨_, rfl, fun other same => ?_⟩
    cases same
    have tree := (sound json after rfl).2
    rwa [Remaining, shallow, Nat.sub_zero] at tree

end Trigger.CJson
