import Trigger.CJson.Completeness
import Trigger.CJson.PrinterSafety

/-! What the printer writes is a text of the grammar, so the parser reads it as the tree it
was printed from.
-/

set_option autoImplicit false

namespace Trigger.CJson
open Foundation Config

theorem numeralText_number (n : Int) : NumberText (n : Rat) (numeralText n) := by
  have spelled := NumberText.mk (decide (n < 0)) (decimalText_ne_nil n.natAbs) (decimalText_digits n.natAbs) .none .none
  have value : ((signed (decide (n < 0)) (decimal (decimalText n.natAbs ++ [])) : Rat) *
      10 ^ ((0 : Int) - ([] : Bytes).length)) = n := by
    have whole : signed (decide (n < 0)) n.natAbs = n := by
      unfold signed
      split_ifs with negative
      · rw [decide_eq_true_eq] at negative
        omega
      · rw [decide_eq_true_eq] at negative
        omega
    rw [List.append_nil, decimal_decimalText, whole, List.length_nil, Nat.cast_zero, sub_zero, zpow_zero, mul_one]
  have source : signText (decide (n < 0)) ++ (decimalText n.natAbs ++ ([] ++ [])) = numeralText n := by
    unfold signText numeralText
    by_cases negative : n < 0
    · simp [negative]
    · simp [negative]
  rwa [value, source] at spelled

theorem escapeText_of_letter {byte letter : UInt8} (isLetter : escapeLetter byte = some letter) : EscapeText byte letter := by
  unfold escapeLetter at isLetter
  split_ifs at isLetter with a b c d e f g
  · cases isLetter
    exact a ▸ .backslash
  · cases isLetter
    exact b ▸ .quote
  · cases isLetter
    exact c ▸ .backspace
  · cases isLetter
    exact d ▸ .formFeed
  · cases isLetter
    exact e ▸ .lineFeed
  · cases isLetter
    exact f ▸ .carriageReturn
  · cases isLetter
    exact g ▸ .tabulator

theorem lowerHex_digit {digit : Nat} (small : digit < 16) : HexDigit digit (lowerHex digit) := by
  unfold HexDigit
  interval_cases digit <;> decide

theorem codepointText_unicode {byte : UInt8} (ascii : byte.toNat < 0x80) :
    UnicodeText (Char.ofNat byte.toNat) (backslash :: codepointText byte) ∧
      String.utf8EncodeChar (Char.ofNat byte.toNat) = [byte] := by
  have code : (Char.ofNat byte.toNat).toNat = byte.toNat := by
    rw [Char.ofNat, dif_pos (.inl (by omega))]
    rfl
  constructor
  · have zero : HexDigit 0 48 := lowerHex_digit (by decide)
    have hex := Hex4.mk zero zero (lowerHex_digit (show byte.toNat / 16 < 16 by omega))
      (lowerHex_digit (show byte.toNat % 16 < 16 by omega))
    rw [show ((0 * 16 + 0) * 16 + byte.toNat / 16) * 16 + byte.toNat % 16 = (Char.ofNat byte.toNat).toNat by omega] at hex
    exact .unit (by omega) hex
  · have encoded := encodeUtf8_char (Char.ofNat byte.toNat)
    have masked : byte.toNat &&& 0x7F = byte.toNat := (Nat.and_two_pow_sub_one_eq_mod _ 7).trans (Nat.mod_eq_of_lt ascii)
    rw [code, encodeUtf8, if_pos ascii, masked, UInt8.ofNat_toNat, Option.some.injEq] at encoded
    exact encoded.symm

theorem escaped_characters {byte : UInt8} {content source : Bytes} (rest : Characters content source) :
    Characters (byte :: content) (escaped byte ++ source) := by
  unfold escaped
  cases isLetter : escapeLetter byte with
  | some letter => exact .escape (escapeText_of_letter isLetter) rest
  | none =>
    dsimp only
    split_ifs with control
    · have small : byte.toNat < 32 := UInt8.lt_iff_toNat_lt.mp control
      obtain ⟨isUnicode, encoded⟩ := codepointText_unicode (show byte.toNat < 0x80 by omega)
      have spelled := Characters.unicode isUnicode rest
      rwa [encoded] at spelled
    · refine .plain (UInt8.not_lt.mp control) ?_ ?_ rest
      · rintro rfl
        cases isLetter
      · rintro rfl
        cases isLetter

theorem renderString_text {content : Bytes} (noNul : 0 ∉ content) : StringText content (renderString content) := by
  have characters : Characters content (content.flatMap escaped) := by
    clear noNul
    induction content with
    | nil => exact .nil
    | cons byte rest ih => exact escaped_characters ih
  have whole : cString content = content := by
    refine List.takeWhile_eq_self_iff.mpr fun byte member => ?_
    rw [decide_eq_true_eq]
    rintro rfl
    exact noNul member
  have spelled := StringText.mk characters
  rwa [whole] at spelled

theorem Blank.append {first second : Bytes} (one : Blank first) (two : Blank second) : Blank (first ++ second) :=
  List.forall_mem_append.mpr ⟨one, two⟩

theorem indent_blank (format : Bool) (depth : Nat) : Blank (indent format depth) := by
  unfold indent
  split_ifs
  · intro byte member
    rw [List.eq_of_mem_replicate member]
    exact .inr (.inl rfl)
  · exact fun _ member => (by cases member)

theorem blank_nil : Blank [] := fun _ member => (by cases member)

theorem blank_singleton {byte : UInt8} (blank : isBlank byte) : Blank [byte] := List.forall_mem_singleton.mpr blank

theorem blank_line (format : Bool) : Blank (if format then [lineFeed] else []) := by
  split_ifs
  · exact blank_singleton (.inr (.inr (.inl rfl)))
  · exact blank_nil

section
variable {A : Type} {denotes : A → Bytes → Prop} {items : List A} {source blanks : Bytes}

theorem Elements.lead (elements : Elements (Padded denotes) items source) (blank : Blank blanks) :
    Elements (Padded denotes) items (blanks ++ source) := by
  cases elements with
  | last padded =>
    obtain ⟨before, body, after, rfl, blankBefore, isItem, blankAfter⟩ := padded
    exact .last ⟨blanks ++ before, body, after, by rw [List.append_assoc], blank.append blankBefore, isItem, blankAfter⟩
  | more padded others =>
    obtain ⟨before, body, after, rfl, blankBefore, isItem, blankAfter⟩ := padded
    rw [← List.append_assoc]
    exact .more ⟨blanks ++ before, body, after, by rw [List.append_assoc], blank.append blankBefore, isItem, blankAfter⟩ others

theorem Elements.trail (elements : Elements (Padded denotes) items source) (blank : Blank blanks) :
    Elements (Padded denotes) items (source ++ blanks) := by
  induction elements with
  | last padded =>
    obtain ⟨before, body, after, rfl, blankBefore, isItem, blankAfter⟩ := padded
    exact .last ⟨before, body, after ++ blanks, by simp only [List.append_assoc], blankBefore, isItem, blankAfter.append blank⟩
  | more padded _ ih =>
    rw [List.append_assoc, List.cons_append]
    exact .more padded ih

end

section
variable {format : Bool} {depth : Nat} {inner : Json → Bytes → Prop}

theorem renderElements_text {items : List Json} (nonempty : items ≠ []) (all : ∀ item ∈ items, inner item (render format depth item)) :
    Elements (Padded inner) items (renderElements format depth items) := by
  induction items with
  | nil => exact absurd rfl nonempty
  | cons item rest ih =>
    obtain ⟨first, others⟩ := List.forall_mem_cons.mp all
    have padded : Padded inner item (render format depth item) :=
      ⟨[], _, [], (List.append_nil _).symm, blank_nil, first, blank_nil⟩
    rw [renderElements]
    cases rest with
    | nil =>
      simp only [List.isEmpty_nil, if_true, renderElements, List.append_nil]
      exact .last padded
    | cons next more =>
      have later := ih (List.cons_ne_nil _ _) others
      have separated : separator format = comma :: if format then [space] else [] := by cases format <;> rfl
      have blank : Blank (if format then [space] else []) := by
        split_ifs
        · exact blank_singleton (.inl rfl)
        · exact blank_nil
      simp only [List.isEmpty_cons, Bool.false_eq_true, if_false, separated, List.cons_append]
      exact .more padded (later.lead blank)

theorem renderMember_text {member : Bytes × Json} (noNul : 0 ∉ member.1) (value : inner member.2 (render format depth member.2))
    {after : Bytes} (blank : Blank after) : Padded (MemberText inner) member (renderMember format depth member ++ after) := by
  obtain ⟨name, json⟩ := member
  have assigned : assign format = colon :: if format then [tab] else [] := by cases format <;> rfl
  have tabbed : Blank (if format then [tab] else []) := by
    split_ifs
    · exact blank_singleton (.inr (.inl rfl))
    · exact blank_nil
  refine ⟨indent format depth, _, after, ?_, indent_blank format depth, .mk (renderString_text noNul) blank_nil tabbed value, blank⟩
  simp only [renderMember, assigned, List.append_assoc, List.cons_append, List.nil_append]

theorem renderMembers_text {members : List (Bytes × Json)} (nonempty : members ≠ []) (names : ∀ member ∈ members, 0 ∉ member.1)
    (all : ∀ member ∈ members, inner member.2 (render format depth member.2)) :
    Elements (Padded (MemberText inner)) members (renderMembers format depth members) := by
  induction members with
  | nil => exact absurd rfl nonempty
  | cons member rest ih =>
    obtain ⟨firstName, otherNames⟩ := List.forall_mem_cons.mp names
    obtain ⟨first, others⟩ := List.forall_mem_cons.mp all
    rw [renderMembers]
    cases rest with
    | nil =>
      simp only [List.isEmpty_nil, ending, if_true, renderMembers, List.append_nil, List.nil_append]
      exact .last (renderMember_text firstName first (blank_line format))
    | cons next more =>
      have later := ih (List.cons_ne_nil _ _) otherNames others
      have padded := renderMember_text firstName first blank_nil
      rw [List.append_nil] at padded
      simp only [List.isEmpty_cons, Bool.false_eq_true, if_false, ending, List.cons_append, List.nil_append]
      exact .more padded (later.lead (blank_line format))

end

theorem valueText_of_scalar {json : Json} {source : Bytes} (isScalar : ScalarText json source) (levels : Nat) :
    ValueText levels json source := by
  cases levels with
  | zero => exact isScalar
  | succ levels => exact .scalar isScalar

theorem opening_eq (format : Bool) : opening format = openBrace :: if format then [lineFeed] else [] := by cases format <;> rfl

/-- The printed text of a tree is a text of the grammar, at the level of the tree. -/
theorem render_text {levels : Nat} {json : Json} (tree : CTree levels json) (format : Bool) (depth : Nat) :
    ValueText levels json (render format depth json) := by
  induction tree generalizing depth with
  | null => rw [render]; exact valueText_of_scalar .null _
  | false => rw [render]; exact valueText_of_scalar .false _
  | true => rw [render]; exact valueText_of_scalar .true _
  | @number _ valueint least most =>
    have scalar := ScalarText.number (numeralText_number valueint)
    rw [saturated_roundBinary_intCast, min_eq_left most, max_eq_right least] at scalar
    rw [render]
    exact valueText_of_scalar scalar _
  | string noNul =>
    rw [render]
    exact valueText_of_scalar (.string (renderString_text noNul)) _
  | @array levels items _ ih =>
    rw [render]
    refine .array ?_
    by_cases empty : items = []
    · subst empty
      exact .empty blank_nil
    · exact .full (renderElements_text empty fun item within => ih item within (depth + 1))
  | @object levels members names _ ih =>
    rw [render, opening_eq, List.cons_append]
    refine .object ?_
    rw [← List.append_assoc (renderMembers ..), ← List.append_assoc (ite ..)]
    by_cases empty : members = []
    · subst empty
      rw [renderMembers, List.nil_append]
      exact .empty ((blank_line format).append (indent_blank format depth))
    · have inside := renderMembers_text empty names fun member within => ih member within (depth + 1)
      exact .full ((inside.trail (indent_blank format depth)).lead (blank_line format))

/-- Parsing undoes printing, formatted or not. -/
theorem parse_render {item : Json} (tree : CTree nestingLimit item) (format : Bool) :
    parse (render format 0 item) = .ok (some item) := by
  have isDocument := @DocumentText.mk item [] [] (render format 0 item) [] (.inl rfl) blank_nil (render_text tree format 0)
    (fun _ no => (by cases no))
  rw [List.nil_append, List.nil_append, List.append_nil] at isDocument
  exact parse_complete isDocument

section
variable {format : Bool} {depth : Nat}

theorem renderElements_noNul {items : List Json} (all : ∀ item ∈ items, 0 ∉ render format depth item) :
    0 ∉ renderElements format depth items := by
  induction items with
  | nil => exact List.not_mem_nil
  | cons item rest ih =>
    obtain ⟨first, others⟩ := List.forall_mem_cons.mp all
    have separated : 0 ∉ if rest.isEmpty then [] else separator format := by
      split_ifs
      · exact List.not_mem_nil
      · cases format <;> decide
    simp only [renderElements, List.mem_append, not_or]
    exact ⟨first, separated, ih others⟩

theorem indent_noNul (format : Bool) (depth : Nat) : 0 ∉ indent format depth := by
  intro member
  rcases indent_blank format depth 0 member with no | no | no | no <;> cases no

theorem renderMembers_noNul {members : List (Bytes × Json)} (names : ∀ member ∈ members, 0 ∉ member.1)
    (all : ∀ member ∈ members, 0 ∉ render format depth member.2) : 0 ∉ renderMembers format depth members := by
  induction members with
  | nil => exact List.not_mem_nil
  | cons member rest ih =>
    obtain ⟨name, value⟩ := member
    obtain ⟨firstName, otherNames⟩ := List.forall_mem_cons.mp names
    obtain ⟨first, others⟩ := List.forall_mem_cons.mp all
    have assigned : 0 ∉ assign format := by cases format <;> decide
    have ended : 0 ∉ ending format rest.isEmpty := by cases format <;> cases rest.isEmpty <;> decide
    simp only [renderMembers, renderMember, List.mem_append, not_or]
    exact ⟨⟨indent_noNul format depth, renderString_noNul firstName, assigned, first⟩, ended, ih otherNames others⟩

theorem render_noNul {levels : Nat} {item : Json} (tree : CTree levels item) (format : Bool) (depth : Nat) :
    0 ∉ render format depth item := by
  induction tree generalizing depth with
  | null => rw [render]; decide
  | false => rw [render]; decide
  | true => rw [render]; decide
  | @number _ valueint _ _ =>
    rw [render]
    exact (numeralText_numeral valueint).no_nul
  | string noNul =>
    rw [render]
    exact renderString_noNul noNul
  | array _ ih =>
    simp only [render, List.mem_cons, List.mem_append, List.not_mem_nil, or_false, not_or]
    exact ⟨by decide, renderElements_noNul fun item within => ih item within (depth + 1), by decide⟩
  | object names _ ih =>
    have opened : 0 ∉ opening format := by cases format <;> decide
    simp only [render, List.mem_append, List.mem_singleton, not_or]
    exact ⟨opened, renderMembers_noNul names fun member within => ih member within (depth + 1), indent_noNul format depth, by decide⟩

end

section
variable {format : Bool} {depth : Nat}

theorem length_renderString_le (content : Bytes) : (renderString content).length ≤ 6 * content.length + 2 := by
  have each (byte : UInt8) : escapeCharacters byte ≤ 5 := by
    unfold escapeCharacters
    split_ifs <;> decide
  have escapes : (content.map escapeCharacters).sum ≤ content.length * 5 := by
    have bounded := List.sum_le_card_nsmul (content.map escapeCharacters) 5 (by simpa using fun byte _ => each byte)
    simpa using bounded
  rw [renderString, List.length_cons, List.length_append, length_escapes, List.length_singleton]
  omega

theorem length_renderElements_le {items : List Json} {most : Nat}
    (all : ∀ item ∈ items, (render format depth item).length ≤ most) :
    (renderElements format depth items).length ≤ items.length * (most + 2) := by
  induction items with
  | nil => exact Nat.zero_le _
  | cons item rest ih =>
    obtain ⟨first, others⟩ := List.forall_mem_cons.mp all
    have later := ih others
    have separated : (if rest.isEmpty then [] else separator format).length ≤ 2 := by
      split_ifs
      · decide
      · cases format <;> decide
    rw [renderElements, List.length_append, List.length_append, List.length_cons, Nat.succ_mul]
    omega

theorem length_array_le {items : List Json} {most : Nat} (all : ∀ item ∈ items, (render format (depth + 1) item).length ≤ most) :
    (render format depth (.array items)).length ≤ items.length * (most + 2) + 2 := by
  have inside := length_renderElements_le all
  rw [render, List.length_cons, List.length_append, List.length_singleton]
  omega

theorem length_indent_le (format : Bool) (depth : Nat) : (indent format depth).length ≤ depth := by
  rw [indent_length]
  split_ifs
  · exact le_rfl
  · exact Nat.zero_le _

theorem length_renderMembers_le {members : List (Bytes × Json)} {longest most : Nat}
    (names : ∀ member ∈ members, member.1.length ≤ longest)
    (all : ∀ member ∈ members, (render format depth member.2).length ≤ most) :
    (renderMembers format depth members).length ≤ members.length * (depth + 6 * longest + most + 6) := by
  induction members with
  | nil => exact Nat.zero_le _
  | cons member rest ih =>
    obtain ⟨name, value⟩ := member
    obtain ⟨firstName, otherNames⟩ := List.forall_mem_cons.mp names
    obtain ⟨first, others⟩ := List.forall_mem_cons.mp all
    have later := ih otherNames others
    have indented := length_indent_le format depth
    have named := length_renderString_le name
    have assigned : (assign format).length ≤ 2 := by cases format <;> decide
    have ended : (ending format rest.isEmpty).length ≤ 2 := by cases format <;> cases rest.isEmpty <;> decide
    simp only [renderMembers, renderMember, List.length_append, List.length_cons, Nat.add_one_mul rest.length] at firstName first ⊢
    omega

theorem length_object_le {members : List (Bytes × Json)} {longest most : Nat}
    (names : ∀ member ∈ members, member.1.length ≤ longest)
    (all : ∀ member ∈ members, (render format (depth + 1) member.2).length ≤ most) :
    (render format depth (.object members)).length ≤ members.length * (depth + 1 + 6 * longest + most + 6) + depth + 3 := by
  have inside := length_renderMembers_le names all
  have opened : (opening format).length ≤ 2 := by cases format <;> decide
  have indented := length_indent_le format depth
  rw [render]
  simp only [List.length_append, List.length_singleton]
  omega

end

/-- The printer writes within its buffer, and each byte it returns was written. The block that is left is the
printed string, which parses to the printed tree; without one nothing is left, and a request for memory was
refused or the text or the nesting is beyond the limits. -/
theorem print_returns {levels : Nat} {item : Json} (tree : CTree levels item) (format : Bool) (hooks : Hooks) :
    ∃ printed hooks', print item format hooks = .ok (printed, hooks') ∧
      (∀ cells ∈ printed, hooks'.live = hooks.live + 1 ∧ ∃ string, cells = (string ++ [0]).map some ∧ 0 ∉ string ∧
        (levels ≤ nestingLimit → parse string = .ok (some item))) ∧
      (printed = none → hooks'.live = hooks.live ∧ (false ∈ hooks.answers ∨
        intMax.toNat < (render format 0 item).length + 2 ∨ nestingLimit < levels)) := by
  obtain ⟨printed, hooks', ran, whole, lost⟩ := print_ok tree format hooks
  refine ⟨printed, hooks', ran, fun cells same => ?_, lost⟩
  obtain ⟨written, live⟩ := whole cells same
  exact ⟨live, render format 0 item, written, render_noNul tree format 0, fun shallow =>
    parse_render (tree.mono shallow) format⟩

theorem print_returns_object : ∃ printed hooks',
    print (.object [([10], .array [.string [255, 34], .null])]) true ⟨[true, false], 3⟩ = .ok (printed, hooks') ∧
      (∀ cells ∈ printed, hooks'.live = 3 + 1 ∧ ∃ string, cells = (string ++ [0]).map some ∧ 0 ∉ string ∧
        (1000 ≤ nestingLimit → parse string = .ok (some (.object [([10], .array [.string [255, 34], .null])])))) ∧
      (printed = none → hooks'.live = 3 ∧ (false ∈ [true, false] ∨
        intMax.toNat < (render true 0 (.object [([10], .array [.string [255, 34], .null])])).length + 2 ∨
          nestingLimit < 1000)) := by
  have items : ∀ item ∈ [Json.string [255, 34], Json.null], CTree 998 item :=
    List.forall_mem_cons.mpr ⟨.string (by decide), List.forall_mem_singleton.mpr .null⟩
  exact print_returns (.object (List.forall_mem_singleton.mpr (by decide)) (List.forall_mem_singleton.mpr (.array items))) true
    ⟨[true, false], 3⟩

end Trigger.CJson
