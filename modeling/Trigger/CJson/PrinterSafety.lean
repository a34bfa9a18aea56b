import Trigger.CJson.ParserSafety
import Trigger.CJson.Printer

/-! The printer on an arbitrary tree.

It never writes outside of what it allocated and never reads a byte it did not write. It
returns either the whole text of the tree or `NULL`, and then it has freed its memory.
-/

set_option autoImplicit false

namespace Trigger.CJson
open Foundation Config

def PrintBuffer.beside (p : PrintBuffer) : Int := p.hooks.live - if p.buffer.isSome then 1 else 0

/-- A step from such buffers does not fault, frees no more than the buffer when it fails, and
fails only for a refused request or for this cause. -/
def Step (step : Print) (before after : PrintBuffer → Prop) (cause : Prop) : Prop :=
  ∀ p, before p → ∃ printed p', step p = .ok (printed, p') ∧ p'.beside = p.beside ∧ p'.hooks.answers <:+ p.hooks.answers ∧
    (printed = true → after p') ∧ (printed = false → false ∈ p.hooks.answers ∨ cause)

section
variable {first second step : Print} {rest : List Print} {before middle after : PrintBuffer → Prop} {cause : Prop}

theorem Step.success : Step Print.success before before cause :=
  fun p holds => ⟨true, p, rfl, rfl, List.suffix_rfl, fun _ => holds, fun no => by cases no⟩

theorem Step.andThen (one : Step first before middle cause) (two : Step second middle after cause) :
    Step (first.andThen second) before after cause := by
  intro p holds
  obtain ⟨printed, p', ran, beside, answers, onSuccess, onFailure⟩ := one p holds
  unfold Print.andThen
  rw [ran, ok_bind]
  cases printed with
  | false => exact ⟨false, p', rfl, beside, answers, fun no => (by cases no), onFailure⟩
  | true =>
    obtain ⟨printed, p'', ran, beside', answers', onSuccess', onFailure'⟩ := two p' (onSuccess rfl)
    refine ⟨printed, p'', ran, beside'.trans beside, answers'.trans answers, onSuccess', fun failed => ?_⟩
    exact (onFailure' failed).imp_left fun refused => answers.subset refused

theorem Step.nil : Step (.inOrder []) before before cause := .success

theorem Step.cons (one : Step first before middle cause) (others : Step (.inOrder rest) middle after cause) :
    Step (.inOrder (first :: rest)) before after cause := one.andThen others

theorem Step.weaken {weaker : Prop} (holds : Step step before after cause) (implies : cause → weaker) :
    Step step before after weaker := by
  intro p start
  obtain ⟨printed, p', ran, beside, answers, onSuccess, onFailure⟩ := holds p start
  exact ⟨printed, p', ran, beside, answers, onSuccess, fun failed => (onFailure failed).imp_right implies⟩

theorem Step.imp {other : PrintBuffer → Prop} (holds : Step step before after cause) (implies : ∀ p, after p → other p) :
    Step step before other cause := by
  intro p start
  obtain ⟨printed, p', ran, beside, answers, onSuccess, onFailure⟩ := holds p start
  exact ⟨printed, p', ran, beside, answers, fun done => implies p' (onSuccess done), onFailure⟩

theorem Step.of_eq (other : Print) (same : ∀ p, before p → step p = other p) (holds : Step other before after cause) :
    Step step before after cause := by
  intro p start
  rw [same p start]
  exact holds p start

end

/-- The text before the offset, what is written behind it, and how many bytes the buffer has
there at least. -/
structure Holding (depth : Nat) (format : Bool) (text behind : Bytes) (room : Nat) (p : PrintBuffer) : Prop where
  depth_eq : p.depth = depth
  format_eq : p.format = format
  offset_eq : p.offset = text.length
  cells : ∃ cells, p.buffer = some cells ∧ cells.Hold (text ++ behind) ∧ text.length + room ≤ cells.length ∧
    cells.length ≤ intMax.toNat

/-- Before a step the offset is valid, as `ensure` asks. -/
def Settled (depth : Nat) (format : Bool) (text : Bytes) : PrintBuffer → Prop := Holding depth format text [] 1

/-- The text has its terminator, and the offset lies somewhere in it. -/
def Terminated (depth : Nat) (format : Bool) (whole : Bytes) (p : PrintBuffer) : Prop :=
  ∃ text behind, whole = text ++ behind ∧ 0 ∉ behind ∧ Holding depth format text (behind ++ [0]) 1 p

section
variable {depth : Nat} {format : Bool} {text behind whole : Bytes} {room : Nat}

theorem refused {hooks : Hooks} (no : ¬ hooks.granted = true) : false ∈ hooks.answers := by
  unfold Hooks.granted at no
  cases answers : hooks.answers with
  | nil =>
    rw [answers] at no
    exact absurd rfl no
  | cons answer more =>
    rw [answers, List.headD_cons, Bool.not_eq_true] at no
    rw [no]
    exact List.mem_cons_self ..

theorem ensure_step (depth : Nat) (format : Bool) (text : Bytes) (needed : Nat) :
    Step (ensure needed) (Settled depth format text) (Holding depth format text [] (needed + 1))
      (intMax.toNat < text.length + needed + 1) := by
  rintro p ⟨atDepth, inFormat, atOffset, cells, isBuffer, hold, enough, fits⟩
  have limit : intMax.toNat = 2147483647 := rfl
  unfold ensure
  rw [isBuffer]
  dsimp only
  rw [if_neg (by omega)]
  by_cases huge : intMax.toNat < needed
  · exact ⟨false, p, if_pos huge, rfl, List.suffix_rfl, fun no => (by cases no), fun _ => .inr (by omega)⟩
  rw [if_neg huge, atOffset]
  by_cases already : needed + text.length + 1 ≤ cells.length
  · rw [if_pos already]
    exact ⟨true, p, rfl, rfl, List.suffix_rfl, fun _ => ⟨atDepth, inFormat, atOffset, cells, isBuffer, hold, by omega, fits⟩,
      fun no => (by cases no)⟩
  rw [if_neg already]
  by_cases overflow : intMax.toNat / 2 < needed + text.length + 1 ∧ intMax.toNat < needed + text.length + 1
  · exact ⟨false, p, if_pos overflow, rfl, List.suffix_rfl, fun no => (by cases no), fun _ => .inr (by omega)⟩
  rw [if_neg overflow]
  -- The new size, for which the buffer is extended or lost.
  have grown : ∃ newsize, (if intMax.toNat / 2 < needed + text.length + 1 then intMax.toNat else
      (needed + text.length + 1) * 2) = newsize ∧ needed + text.length + 1 ≤ newsize ∧ newsize ≤ intMax.toNat := by
    refine ⟨_, rfl, ?_⟩
    split_ifs <;> omega
  obtain ⟨newsize, same, large, small⟩ := grown
  rw [same]
  by_cases granted : p.hooks.granted = true
  · rw [if_pos granted]
    refine ⟨true, _, rfl, ?_, List.tail_suffix _, fun _ => ?_, fun no => (by cases no)⟩
    · simp only [PrintBuffer.beside, Hooks.asked, isBuffer, Option.isSome_some]
    · refine ⟨atDepth, inFormat, rfl, cells.resize newsize, rfl, hold.resize ?_, ?_, ?_⟩
      · rw [List.append_nil]
        omega
      · rw [Cells.length_resize]
        omega
      · rwa [Cells.length_resize]
  · rw [if_neg granted]
    refine ⟨false, _, rfl, ?_, List.tail_suffix _, fun no => (by cases no), fun _ => .inl ?_⟩
    · simp only [PrintBuffer.beside, Hooks.asked, Hooks.deallocate, isBuffer, Option.isSome_some, Option.isSome_none, if_true]
      simp
    · exact refused granted

theorem write_step (depth : Nat) (format : Bool) (text behind bytes : Bytes) {room : Nat} {cause : Prop} (within : behind.length + bytes.length ≤ room) :
    Step (write behind.length bytes) (Holding depth format text behind room) (Holding depth format text (behind ++ bytes) room)
      cause := by
  rintro p ⟨atDepth, inFormat, atOffset, cells, isBuffer, hold, enough, fits⟩
  obtain ⟨written, stored, holds, same⟩ := @Cells.Hold.storeAll _ _ _ hold bytes (by rw [List.length_append]; omega)
  rw [List.length_append] at stored
  refine ⟨true, { p with buffer := some written }, ?_, ?_, List.suffix_rfl, fun _ => ?_, fun no => (by cases no)⟩
  · unfold write
    rw [isBuffer, atOffset]
    dsimp only
    rw [stored]
    rfl
  · simp only [PrintBuffer.beside, isBuffer, Option.isSome_some]
  · rw [List.append_assoc] at holds
    exact ⟨atDepth, inFormat, atOffset, written, rfl, holds, by omega, by omega⟩

theorem forward_step {bytes : Bytes} {cause : Prop} (inside : bytes.length < room) :
    Step (forward bytes.length) (Holding depth format text (bytes ++ behind) room)
      (Holding depth format (text ++ bytes) behind 1) cause := by
  rintro p ⟨atDepth, inFormat, atOffset, cells, isBuffer, hold, enough, fits⟩
  refine ⟨true, _, rfl, rfl, List.suffix_rfl, fun _ => ?_, fun no => (by cases no)⟩
  refine ⟨atDepth, inFormat, ?_, cells, isBuffer, by rwa [List.append_assoc], ?_, fits⟩
  · change p.offset + bytes.length = _
    rw [atOffset, List.length_append]
  · rw [List.length_append]
    omega

theorem append_step (depth : Nat) (format : Bool) (text behind : Bytes) (needed : Nat) (bytes : Bytes) (more : (bytes ++ behind).length ≤ needed + 1) (few : bytes.length ≤ needed) :
    Step (append needed (bytes ++ behind) bytes.length) (Settled depth format text)
      (Holding depth format (text ++ bytes) behind 1) (intMax.toNat < text.length + needed + 1) :=
  .cons (ensure_step _ _ _ _) (.cons (write_step _ _ _ [] _ (by simpa using more)) (.cons (forward_step (by omega)) .nil))

theorem append_settled (depth : Nat) (format : Bool) (text : Bytes) (needed : Nat) (bytes : Bytes) (few : bytes.length ≤ needed) :
    Step (append needed bytes bytes.length) (Settled depth format text) (Settled depth format (text ++ bytes))
      (intMax.toNat < text.length + needed + 1) := by
  have appended := append_step depth format text [] needed bytes
    (by rw [List.append_nil]; omega) few
  rwa [List.append_nil] at appended

theorem append_terminated (depth : Nat) (format : Bool) (text : Bytes) (needed : Nat) (bytes : Bytes) (few : bytes.length ≤ needed) (noNul : 0 ∉ bytes) :
    Step (append needed (bytes ++ [0]) 0) (Settled depth format text) (Terminated depth format (text ++ bytes))
      (intMax.toNat < text.length + needed + 1) := by
  have appended := append_step depth format text (bytes ++ [0]) needed [] (by simpa using few) (Nat.zero_le _)
  rw [List.nil_append, List.length_nil, List.append_nil] at appended
  exact appended.imp fun p holds => ⟨text, bytes, rfl, noNul, holds⟩

theorem strlen_hold {cells : Cells UInt8} {behind : Bytes} (noNul : 0 ∉ behind) (hold : cells.Hold (behind ++ [0])) :
    strlen cells = .ok behind.length := by
  induction behind generalizing cells with
  | nil =>
    obtain ⟨more, rfl⟩ := hold
    rfl
  | cons byte behind ih =>
    obtain ⟨more, rfl⟩ := hold
    obtain ⟨apart, others⟩ := not_or.mp (fun member => noNul (List.mem_cons.mpr member))
    have later : strlen ((behind ++ [0]).map some ++ more) = .ok behind.length := ih others ⟨more, rfl⟩
    change strlen (some byte :: ((behind ++ [0]).map some ++ more)) = _
    rw [strlen, if_neg (Ne.symm apart), later]
    rfl

theorem updateOffset_whole {cause : Prop} :
    Step updateOffset (Terminated depth format whole) (Holding depth format whole [0] 1) cause := by
  rintro p ⟨text, behind, rfl, noNul, atDepth, inFormat, atOffset, cells, isBuffer, hold, enough, fits⟩
  have rest : Cells.Hold (cells.drop p.offset) (behind ++ [0]) := atOffset ▸ hold.behind
  refine ⟨true, { p with offset := p.offset + behind.length }, ?_, rfl, List.suffix_rfl, fun _ => ?_, fun no => (by cases no)⟩
  · unfold updateOffset
    rw [isBuffer]
    dsimp only
    rw [strlen_hold noNul rest]
    rfl
  · have long := hold.length_le
    simp only [List.length_map, List.length_append, List.length_singleton] at long
    refine ⟨atDepth, inFormat, ?_, cells, isBuffer, by rwa [List.append_assoc], ?_, fits⟩
    · rw [List.length_append, ← atOffset]
    · rw [List.length_append]
      omega

theorem Holding.settled (p : PrintBuffer) (holds : Holding depth format text behind 1 p) : Settled depth format text p := by
  obtain ⟨atDepth, inFormat, atOffset, cells, isBuffer, hold, enough, fits⟩ := holds
  exact ⟨atDepth, inFormat, atOffset, cells, isBuffer, by rw [List.append_nil]; exact hold.front, enough, fits⟩

theorem updateOffset_step {cause : Prop} :
    Step updateOffset (Terminated depth format whole) (Settled depth format whole) cause :=
  updateOffset_whole.imp Holding.settled

theorem append_zero (needed : Nat) (bytes : Bytes) (few : bytes.length ≤ needed) :
    Step (append needed (bytes ++ [0]) bytes.length) (Settled depth format text) (Settled depth format (text ++ bytes))
      (intMax.toNat < text.length + needed + 1) :=
  (append_step _ _ _ _ needed bytes (by rw [List.length_append]; exact Nat.succ_le_succ few) few).imp Holding.settled

theorem deeper_step {cause : Prop} :
    Step deeper (Settled depth format text) (Settled (depth + 1) format text) cause :=
  fun p ⟨atDepth, inFormat, atOffset, cells⟩ => ⟨true, _, rfl, rfl, List.suffix_rfl,
    fun _ => ⟨congrArg (· + 1) atDepth, inFormat, atOffset, cells⟩, fun no => (by cases no)⟩

theorem shallower_step {cause : Prop} :
    Step shallower (Terminated (depth + 1) format text) (Terminated depth format text) cause :=
  fun p ⟨front, behind, same, noNul, atDepth, inFormat, atOffset, cells⟩ => ⟨true, _, rfl, rfl, List.suffix_rfl,
    fun _ => ⟨front, behind, same, noNul, congrArg (· - 1) atDepth, inFormat, atOffset, cells⟩, fun no => (by cases no)⟩

end

theorem numeralText_length {valueint : Int} (least : intMin ≤ valueint) (most : valueint ≤ intMax) :
    (numeralText valueint).length ≤ 11 := by
  have few : valueint.natAbs < 10 ^ 10 := by
    simp only [intMin, intMax] at least most
    omega
  have digits := (length_decimalText_le_iff (by decide)).mpr few
  unfold numeralText
  split_ifs
  · rw [List.length_cons]
    omega
  · omega

theorem length_escaped (byte : UInt8) : (escaped byte).length = 1 + escapeCharacters byte := by
  unfold escaped escapeCharacters
  cases escapeLetter byte with
  | some letter => rfl
  | none =>
    by_cases control : byte < 32
    · simp [control, codepointText]
    · simp [control]

theorem length_escapes (input : Bytes) :
    (input.flatMap escaped).length = input.length + (input.map escapeCharacters).sum := by
  induction input with
  | nil => rfl
  | cons byte rest ih =>
    rw [List.flatMap_cons, List.length_append, ih, length_escaped, List.map_cons, List.sum_cons, List.length_cons]
    omega

theorem escapes_eq {input : Bytes} (none : (input.map escapeCharacters).sum = 0) : input.flatMap escaped = input := by
  induction input with
  | nil => rfl
  | cons byte rest ih =>
    rw [List.map_cons, List.sum_cons, Nat.add_eq_zero_iff] at none
    have single : escaped byte = [byte] := by
      have zero := none.1
      unfold escapeCharacters at zero
      unfold escaped
      cases isLetter : escapeLetter byte with
      | some letter => rw [isLetter] at zero; simp at zero
      | none =>
        rw [isLetter] at zero
        dsimp only
        by_cases control : byte < 32
        · simp [control] at zero
        · rw [if_neg control]
    rw [List.flatMap_cons, ih none.2, single]
    rfl

theorem escaped_plain {byte : UInt8} (plain : 31 < byte ∧ byte ≠ quote ∧ byte ≠ backslash) : escaped byte = [byte] := by
  obtain ⟨large, notQuote, notBackslash⟩ := plain
  have noLetter : escapeLetter byte = none := by
    unfold escapeLetter
    simp only [UInt8.lt_iff_toNat_lt, UInt8.reduceToNat, ne_eq, ← UInt8.toNat_inj, quote, backslash] at *
    split_ifs <;> first | rfl | omega
  have noControl : ¬ byte < 32 := by
    simp only [UInt8.lt_iff_toNat_lt, UInt8.reduceToNat] at *
    omega
  rw [escaped, noLetter]
  exact if_neg noControl

theorem escaped_codepoint {byte : UInt8} (special : ¬ (31 < byte ∧ byte ≠ quote ∧ byte ≠ backslash))
    (noLetter : escapeLetter byte = none) : escaped byte = backslash :: codepointText byte := by
  have control : byte < 32 := by
    by_contra large
    refine special ⟨?_, ?_, ?_⟩
    · simp only [UInt8.lt_iff_toNat_lt, UInt8.reduceToNat] at *
      omega
    · rintro rfl
      cases noLetter
    · rintro rfl
      cases noLetter
  rw [escaped, noLetter]
  exact if_pos control

/-- The second loop writes what the first one counted; a terminator of `sprintf` lies one
behind at most. -/
theorem copyString_hold (input : Bytes) {done : Bytes} {cells : Cells UInt8} (hold : cells.Hold done)
    (enough : done.length + (input.flatMap escaped).length + 1 ≤ cells.length) :
    ∃ written, copyString input done.length cells = .ok written ∧ written.Hold (done ++ input.flatMap escaped) ∧
      written.length = cells.length := by
  induction input generalizing cells done with
  | nil => exact ⟨cells, rfl, by simpa using hold, rfl⟩
  | cons byte rest ih =>
    rw [List.flatMap_cons, List.length_append] at enough
    -- The bytes of one round, behind which the other rounds go on.
    have round {bytes : Bytes} {stored : Cells UInt8} (is : escaped byte = bytes) (holds : stored.Hold (done ++ bytes))
        (same : stored.length = cells.length) : ∃ written, copyString rest (done.length + bytes.length) stored = .ok written ∧
          written.Hold (done ++ (byte :: rest).flatMap escaped) ∧ written.length = cells.length := by
      rw [is] at enough
      obtain ⟨written, copied, last, length⟩ := ih holds (by rw [List.length_append]; omega)
      rw [List.length_append] at copied
      refine ⟨written, copied, ?_, length.trans same⟩
      rw [List.flatMap_cons, is, ← List.append_assoc]
      exact last
    rw [copyString]
    by_cases plain : 31 < byte ∧ byte ≠ quote ∧ byte ≠ backslash
    · have is := escaped_plain plain
      rw [is] at enough
      have room : done.length < cells.length := by omega
      obtain ⟨written, copied, last⟩ := round is (hold.store room byte) (List.length_set ..)
      refine ⟨written, ?_, last⟩
      rw [if_pos plain, Cells.store, if_pos room]
      exact copied
    · have first : done.length < cells.length := by omega
      have stored := hold.store first backslash
      rw [if_neg plain, Cells.store, if_pos first, ok_bind]
      cases isLetter : escapeLetter byte with
      | some letter =>
        have is : escaped byte = [backslash, letter] := by rw [escaped, isLetter]
        rw [is] at enough
        have room : done.length + 1 < (cells.set done.length (some backslash)).length := by
          rw [List.length_set]
          simp only [List.length_cons, List.length_nil] at enough
          omega
        have both := stored.store (by rwa [List.length_append]) letter
        rw [List.length_append, List.append_assoc] at both
        obtain ⟨result, copied, last⟩ := round is both (by rw [List.length_set, List.length_set])
        refine ⟨result, ?_, last⟩
        dsimp only
        rw [Cells.store, if_pos room, ok_bind]
        exact copied
      | none =>
        have is := escaped_codepoint plain isLetter
        rw [is] at enough
        obtain ⟨written, all, holds, same⟩ : ∃ written, Cells.storeAll (cells.set done.length (some backslash))
            (done ++ [backslash]).length (codepointText byte ++ [0]) = .ok written ∧ _ := stored.storeAll (by
          simp only [List.length_append, List.length_cons, List.length_nil, List.length_set, codepointText] at enough ⊢
          omega)
        have whole : written.Hold (done ++ (backslash :: codepointText byte) ++ [0]) := by
          rw [List.append_assoc] at holds ⊢
          exact holds
        rw [List.length_append] at all
        obtain ⟨result, copied, last⟩ := round is whole.front (same.trans (List.length_set ..))
        refine ⟨result, ?_, last⟩
        dsimp only
        rw [show done.length + 1 = done.length + [backslash].length from rfl, all]
        exact copied

section
variable {depth levels : Nat} {format : Bool} {text : Bytes}

/-- Why a text may not be printed: it is too long for the buffer, or its tree nested too deep. -/
def Cause (depth levels : Nat) (whole : Bytes) : Prop := intMax.toNat < whole.length + 2 ∨ nestingLimit < depth + levels

theorem Cause.ofNeeded {needed : Nat} {out : Bytes} (few : needed ≤ out.length + 1)
    (large : intMax.toNat < text.length + needed + 1) : Cause depth levels (text ++ out) := by
  left
  rw [List.length_append]
  omega

theorem Cause.append {out more : Bytes} (cause : Cause depth levels (text ++ out)) : Cause depth levels (text ++ (out ++ more)) := by
  refine cause.imp_left fun large => ?_
  rw [← List.append_assoc, List.length_append]
  omega

theorem printNumber_step {valueint : Int} (least : intMin ≤ valueint) (most : valueint ≤ intMax) :
    Step (printNumber valueint) (Settled depth format text) (Terminated depth format (text ++ numeralText valueint))
      (Cause depth levels (text ++ numeralText valueint)) := by
  have short := numeralText_length least most
  have appended := append_step depth format text [0]
    ((numeralText valueint).length + 1) (numeralText valueint) (by simp) (Nat.le_succ _)
  have terminated := appended.imp fun p holds => (⟨_, [], (List.append_nil _).symm, List.not_mem_nil, holds⟩ :
    Terminated depth format (text ++ numeralText valueint) p)
  refine (terminated.weaken (Cause.ofNeeded le_rfl)).of_eq _ fun p _ => ?_
  unfold printNumber
  rw [strcpy_of_fits (by omega), ok_bind]

theorem copyBehindQuote_step {input : Bytes} {room : Nat} {cause : Prop} (enough : (input.flatMap escaped).length + 2 ≤ room) :
    Step (copyBehindQuote input) (Holding depth format text [quote] room)
      (Holding depth format text (quote :: input.flatMap escaped) room) cause := by
  rintro p ⟨atDepth, inFormat, atOffset, cells, isBuffer, hold, large, fits⟩
  obtain ⟨written, copied, holds, same⟩ := copyString_hold input hold (by
    rw [List.length_append, List.length_singleton]
    omega)
  rw [List.append_assoc] at holds
  rw [List.length_append, List.length_singleton, ← atOffset] at copied
  refine ⟨true, { p with buffer := some written }, ?_, ?_, List.suffix_rfl, fun _ => ?_, fun no => (by cases no)⟩
  · unfold copyBehindQuote
    rw [isBuffer]
    dsimp only
    rw [copied]
    rfl
  · simp only [PrintBuffer.beside, isBuffer, Option.isSome_some]
  · exact ⟨atDepth, inFormat, atOffset, written, rfl, holds, by omega, by omega⟩

theorem Holding.terminated {out : Bytes} {room : Nat} {p : PrintBuffer}
    (holds : Holding depth format text (out ++ [0]) room p) (noNul : 0 ∉ out) : Terminated depth format (text ++ out) p := by
  obtain ⟨atDepth, inFormat, atOffset, cells, isBuffer, hold, enough, fits⟩ := holds
  have long := hold.length_le
  simp only [List.length_map, List.length_append, List.length_singleton] at long
  exact ⟨text, out, rfl, noNul, atDepth, inFormat, atOffset, cells, isBuffer, hold, by omega, fits⟩

theorem lowerHex_ne_zero {digit : Nat} (small : digit < 16) : lowerHex digit ≠ 0 := by
  interval_cases digit <;> decide

theorem escapeLetter_ne_zero {byte letter : UInt8} (isLetter : escapeLetter byte = some letter) : letter ≠ 0 := by
  unfold escapeLetter at isLetter
  split_ifs at isLetter <;> cases isLetter <;> decide

theorem escaped_noNul {byte : UInt8} (nonzero : byte ≠ 0) : 0 ∉ escaped byte := by
  have small := byte.toNat_lt
  have high := lowerHex_ne_zero (show byte.toNat / 16 < 16 by omega)
  have low := lowerHex_ne_zero (show byte.toNat % 16 < 16 by omega)
  unfold escaped
  cases isLetter : escapeLetter byte with
  | some letter => simp [backslash, (escapeLetter_ne_zero isLetter).symm]
  | none =>
    dsimp only
    split_ifs
    · simp [codepointText, backslash, high.symm, low.symm]
    · simpa using nonzero.symm

theorem renderString_noNul {input : Bytes} (noNul : 0 ∉ input) : 0 ∉ renderString input := by
  unfold renderString
  simp only [List.mem_cons, List.mem_append, List.mem_flatMap, List.not_mem_nil, or_false, not_or, not_exists, not_and]
  refine ⟨by decide, fun byte member => escaped_noNul ?_, by decide⟩
  rintro rfl
  exact noNul member

theorem printStringPtr_step (depth levels : Nat) (format : Bool) (text : Bytes) {input : Bytes} (noNul : 0 ∉ input) :
    Step (printStringPtr input) (Settled depth format text) (Terminated depth format (text ++ renderString input))
      (Cause depth levels (text ++ renderString input)) := by
  have counted := length_escapes input
  have whole : (renderString input).length = (input.flatMap escaped).length + 2 := by
    rw [renderString, List.length_cons, List.length_append, List.length_singleton]
  have ensured := ensure_step depth format text
    (input.length + (input.map escapeCharacters).sum + 3)
  have finish (p : PrintBuffer) (holds : Holding depth format text (renderString input ++ [0])
      (input.length + (input.map escapeCharacters).sum + 4) p) := holds.terminated (renderString_noNul noNul)
  refine (ensured.weaken (Cause.ofNeeded (by omega))).andThen ?_
  split_ifs with plain
  · have is : quote :: (input ++ [quote, 0]) = renderString input ++ [0] := by
      rw [renderString, escapes_eq plain]
      simp
    rw [is]
    exact (write_step _ _ _ [] _ (by rw [List.length_append, whole]; simp only [List.length_cons, List.length_nil]; omega)).imp
      finish
  · have index : (quote :: input.flatMap escaped).length = input.length + (input.map escapeCharacters).sum + 1 := by
      rw [List.length_cons, counted]
    have is : quote :: input.flatMap escaped ++ [quote, 0] = renderString input ++ [0] := by simp [renderString]
    have last := @write_step depth format text (quote :: input.flatMap escaped) [quote, 0]
      (input.length + (input.map escapeCharacters).sum + 4) (Cause depth levels (text ++ renderString input))
      (by rw [index]; simp only [List.length_cons, List.length_nil]; omega)
    rw [index, is] at last
    exact .cons (write_step _ _ _ [] _ (by simp only [List.length_cons, List.length_nil]; omega))
      (.cons (copyBehindQuote_step (by omega)) (.cons (last.imp finish) .nil))

/-- At a depth the printer prints every tree as its text. -/
def Prints (printInner : Json → Print) (depth : Nat) : Prop :=
  ∀ levels json format text, CTree levels json → Step (printInner json) (Settled depth format text)
    (Terminated depth format (text ++ render format depth json)) (Cause depth levels (text ++ render format depth json))

theorem Step.failed {before after : PrintBuffer → Prop} {cause : Prop} (because : cause) :
    Step (fun p => .ok (false, p)) before after cause :=
  fun p _ => ⟨false, p, rfl, rfl, List.suffix_rfl, fun no => (by cases no), fun _ => .inr because⟩

theorem Cause.inside {out before after : Bytes} (cause : Cause depth levels (text ++ (before ++ out))) :
    Cause depth levels (text ++ (before ++ (out ++ after))) := by
  rw [← List.append_assoc before]
  exact cause.append

variable {printInner : Json → Print}

theorem printSeparator_step : Step printSeparator (Settled depth format text) (Settled depth format (text ++ separator format))
    (Cause depth levels (text ++ separator format)) := by
  refine ((append_zero ((separator format).length + 1) _ (Nat.le_succ _)).weaken (Cause.ofNeeded le_rfl)).of_eq _ fun p holds => ?_
  rw [printSeparator, holds.format_eq]

theorem printElements_step (format : Bool) (prints : Prints printInner depth) {items : List Json} (all : ∀ item ∈ items, CTree levels item)
    (text : Bytes) : Step (printElements printInner items) (Settled depth format text)
      (Settled depth format (text ++ renderElements format depth items))
      (Cause depth levels (text ++ renderElements format depth items)) := by
  induction items generalizing text with
  | nil =>
    rw [printElements, renderElements, List.append_nil]
    exact .success
  | cons item rest ih =>
    obtain ⟨first, others⟩ := List.forall_mem_cons.mp all
    have printed := prints levels item format text first
    have separated : Step (if rest.isEmpty then Print.success else printSeparator)
        (Settled depth format (text ++ render format depth item))
        (Settled depth format (text ++ render format depth item ++ if rest.isEmpty then [] else separator format))
        (Cause depth levels (text ++ render format depth item ++ if rest.isEmpty then [] else separator format)) := by
      split_ifs
      · rw [List.append_nil]
        exact .success
      · exact printSeparator_step
    have later := ih others (text ++ render format depth item ++ if rest.isEmpty then [] else separator format)
    rw [printElements, renderElements]
    simp only [List.append_assoc] at separated later
    exact .cons (printed.weaken .append) (.cons updateOffset_step (.cons (separated.weaken .inside) (.cons later .nil)))

theorem Cause.level {whole : Bytes} (cause : Cause (depth + 1) levels whole) : Cause depth (levels + 1) whole :=
  cause.imp_right fun deep => by omega

theorem printArray_step (prints : depth < nestingLimit → Prints printInner (depth + 1)) {items : List Json}
    (all : ∀ item ∈ items, CTree levels item) : Step (printArray printInner items) (Settled depth format text)
      (Terminated depth format (text ++ render format depth (.array items)))
      (Cause depth (levels + 1) (text ++ render format depth (.array items))) := by
  by_cases deep : nestingLimit ≤ depth
  · refine (Step.failed (Or.inr (by omega))).of_eq _ fun p holds => ?_
    exact if_pos (holds.depth_eq ▸ deep)
  have opened := append_settled depth format text 1 [openBracket] le_rfl
  have elements := printElements_step format (prints (Nat.not_le.mp deep)) all (text ++ [openBracket])
  have closed := append_terminated (depth + 1) format
    (text ++ [openBracket] ++ renderElements format (depth + 1) items) 2 [closeBracket] (by decide) (by decide)
  simp only [List.append_assoc] at elements closed
  have whole : render format depth (.array items) =
      [openBracket] ++ (renderElements format (depth + 1) items ++ [closeBracket]) := by
    rw [render]
    rfl
  rw [whole]
  refine Step.of_eq _ (fun p holds => if_neg (holds.depth_eq ▸ deep)) (.cons (opened.weaken fun large => ?_)
    (.cons deeper_step (.cons (elements.weaken fun cause => cause.inside.level) (.cons (closed.weaken fun large => ?_)
      (.cons shallower_step .nil)))))
  · exact .append (.ofNeeded (by decide) large)
  · left
    simp only [List.length_append, List.length_singleton] at large ⊢
    omega

theorem indent_length (format : Bool) (depth : Nat) : (indent format depth).length = if format then depth else 0 := by
  cases format <;> simp [indent]

theorem indent_step : Step (fun p => if p.format then append p.depth (indent p.format p.depth) p.depth p else Print.success p)
    (Settled depth format text) (Settled depth format (text ++ indent format depth))
    (Cause depth levels (text ++ indent format depth)) := by
  cases format with
  | false =>
    rw [show indent Bool.false depth = [] from rfl, List.append_nil]
    exact Step.success.of_eq _ fun p holds => if_neg (by rw [holds.format_eq]; decide)
  | true =>
    have length := indent_length Bool.true depth
    rw [if_pos rfl] at length
    have appended := append_settled depth Bool.true text depth _ length.le
    rw [length] at appended
    refine (appended.weaken (Cause.ofNeeded (by omega))).of_eq _ fun p holds => ?_
    rw [holds.format_eq, holds.depth_eq]
    rfl

theorem assign_step : Step (fun p => append (assign p.format).length (assign p.format) (assign p.format).length p)
    (Settled depth format text) (Settled depth format (text ++ assign format)) (Cause depth levels (text ++ assign format)) := by
  refine ((append_settled _ _ _ (assign format).length _ le_rfl).weaken (Cause.ofNeeded (Nat.le_succ _))).of_eq _ fun p holds => ?_
  rw [holds.format_eq]

theorem ending_step (last : Bool) : Step (fun p =>
      let end_ := ending p.format last
      append (end_.length + 1) (end_ ++ [0]) end_.length p)
    (Settled depth format text) (Settled depth format (text ++ ending format last))
    (Cause depth levels (text ++ ending format last)) := by
  refine ((append_zero ((ending format last).length + 1) _ (Nat.le_succ _)).weaken (Cause.ofNeeded le_rfl)).of_eq _ fun p holds => ?_
  dsimp only
  rw [holds.format_eq]

theorem printMembers_step (format : Bool) (prints : Prints printInner depth) {members : List (Bytes × Json)}
    (names : ∀ member ∈ members, 0 ∉ member.1) (all : ∀ member ∈ members, CTree levels member.2) (text : Bytes) :
    Step (printMembers printInner members) (Settled depth format text)
      (Settled depth format (text ++ renderMembers format depth members))
      (Cause depth levels (text ++ renderMembers format depth members)) := by
  induction members generalizing text with
  | nil =>
    rw [printMembers, renderMembers, List.append_nil]
    exact .success
  | cons member rest ih =>
    obtain ⟨name, value⟩ := member
    obtain ⟨firstName, otherNames⟩ := List.forall_mem_cons.mp names
    obtain ⟨first, others⟩ := List.forall_mem_cons.mp all
    have indented : Step _ _ _ (Cause depth levels (text ++ indent format depth)) := indent_step
    have named := printStringPtr_step depth levels format (text ++ indent format depth) firstName
    have assigned : Step _ _ _ (Cause depth levels (text ++ indent format depth ++ renderString name ++ assign format)) := assign_step
    have printed := prints levels value format (text ++ indent format depth ++ renderString name ++ assign format) first
    have ended : Step _ _ _ (Cause depth levels (text ++ indent format depth ++ renderString name ++ assign format ++
      render format depth value ++ ending format rest.isEmpty)) := ending_step rest.isEmpty
    have later := ih otherNames others (text ++ indent format depth ++ renderString name ++ assign format ++
      render format depth value ++ ending format rest.isEmpty)
    rw [printMembers, renderMembers, renderMember]
    have longer {part whole : Bytes} (few : part.length ≤ whole.length) (cause : Cause depth levels part) :
        Cause depth levels whole := cause.imp_left fun large => by omega
    simp only [List.append_assoc] at named assigned printed ended later ⊢
    refine .cons (indented.weaken (longer ?_)) (.cons (named.weaken (longer ?_)) (.cons updateOffset_step
      (.cons (assigned.weaken (longer ?_)) (.cons (printed.weaken (longer ?_)) (.cons updateOffset_step
        (.cons (ended.weaken (longer ?_)) (.cons later .nil)))))))
    all_goals
      simp only [List.length_append]
      omega

theorem printObject_step (prints : depth < nestingLimit → Prints printInner (depth + 1)) {members : List (Bytes × Json)}
    (names : ∀ member ∈ members, 0 ∉ member.1) (all : ∀ member ∈ members, CTree levels member.2) :
    Step (printObject printInner members) (Settled depth format text)
      (Terminated depth format (text ++ render format depth (.object members)))
      (Cause depth (levels + 1) (text ++ render format depth (.object members))) := by
  by_cases deep : nestingLimit ≤ depth
  · refine (Step.failed (Or.inr (by omega))).of_eq _ fun p holds => ?_
    exact if_pos (holds.depth_eq ▸ deep)
  have opened := append_settled depth format text ((opening format).length + 1)
    (opening format) (Nat.le_succ _)
  have inside := printMembers_step format (prints (Nat.not_le.mp deep)) names all (text ++ opening format)
  -- The code asks at the closing brace for what it writes, or for one byte more.
  have room : (indent format depth ++ [closeBrace]).length ≤ (if format then depth + 1 + 1 else 2) ∧
      (if format then depth + 1 + 1 else 2) ≤ (indent format depth ++ [closeBrace]).length + 1 := by
    rw [List.length_append, indent_length, List.length_singleton]
    cases format <;> simp
  have noNul : 0 ∉ indent format depth ++ [closeBrace] := by
    have tabs : 0 ∉ indent format depth := by
      unfold indent
      split_ifs
      · rw [List.mem_replicate]
        rintro ⟨-, same⟩
        cases same
      · exact List.not_mem_nil
    simp only [List.mem_append, List.mem_singleton, not_or]
    exact ⟨tabs, by decide⟩
  have closed := append_terminated (depth + 1) format
    (text ++ opening format ++ renderMembers format (depth + 1) members) _ _ room.1 noNul
  have closing : Step (fun p => append (if p.format then p.depth + 1 else 2)
      (indent p.format (p.depth - 1) ++ [closeBrace, 0]) 0 p) _ _ _ := closed.of_eq _ fun p holds => by
    rw [holds.format_eq, holds.depth_eq, List.append_assoc]
    rfl
  simp only [List.append_assoc] at inside closing
  rw [render]
  refine Step.of_eq _ (fun p holds => if_neg (holds.depth_eq ▸ deep)) ?_
  refine Step.of_eq (.inOrder [append ((opening format).length + 1) (opening format) (opening format).length, deeper,
    printMembers printInner members, fun p => append (if p.format then p.depth + 1 else 2)
      (indent p.format (p.depth - 1) ++ [closeBrace, 0]) 0 p, shallower]) (fun p holds => by rw [holds.format_eq]) ?_
  refine .cons (opened.weaken fun large => ?_) (.cons deeper_step (.cons (inside.weaken fun cause => cause.inside.level)
    (.cons (closing.weaken fun large => ?_) (.cons shallower_step .nil))))
  · exact .append (.ofNeeded le_rfl large)
  · left
    have few := room.2
    simp only [List.length_append, List.length_singleton] at large few ⊢
    omega

theorem literal_step (needed : Nat) {bytes : Bytes} (length : bytes.length + 1 = needed) (noNul : 0 ∉ bytes) :
    Step (append needed (bytes ++ [0]) 0) (Settled depth format text) (Terminated depth format (text ++ bytes))
      (Cause depth levels (text ++ bytes)) :=
  (append_terminated _ _ _ needed _ (by omega) noNul).weaken (Cause.ofNeeded (by omega))

theorem printValueWith_prints (prints : depth < nestingLimit → Prints printInner (depth + 1)) :
    Prints (printValueWith printInner) depth := by
  intro levels json format text tree
  cases tree with
  | null =>
    rw [printValueWith, render]
    exact literal_step 5 (by decide) (by decide)
  | false =>
    rw [printValueWith, render]
    exact literal_step 6 (by decide) (by decide)
  | true =>
    rw [printValueWith, render]
    exact literal_step 5 (by decide) (by decide)
  | number least most =>
    rw [printValueWith, render]
    exact printNumber_step least most
  | string noNul =>
    rw [printValueWith, render]
    exact printStringPtr_step _ _ _ _ noNul
  | array all => exact printArray_step prints all
  | object names all => exact printObject_step prints names all

theorem printValueAt_prints (level : Nat) {depth : Nat} (atLimit : level + depth = nestingLimit) :
    Prints (printValueAt (level + 1)) depth := by
  induction level generalizing depth with
  | zero => exact printValueWith_prints fun deeper => absurd deeper (by omega)
  | succ level ih => exact printValueWith_prints fun _ => ih (by omega)

end

theorem printValue_step (json : Json) (levels : Nat) (format : Bool) (tree : CTree levels json) :
    Step (printValue json) (Settled 0 format []) (Terminated 0 format (render format 0 json))
      (Cause 0 levels (render format 0 json)) := by
  have printed := printValueAt_prints nestingLimit (Nat.add_zero _) levels json format [] tree
  exact Step.of_eq _ (fun p holds => by rw [printValue, holds.depth_eq]; rfl) printed

/-- Printing a tree of C data faults on no answer of the allocator. It returns the text of the
tree with its terminator, as the only block it keeps, or `NULL`, and then it keeps none;
`NULL` is returned only for a refused request, for a text beyond `INT_MAX` and for a tree
beyond the nesting limit. -/
theorem print_ok {levels : Nat} {item : Json} (tree : CTree levels item) (format : Bool) (hooks : Hooks) :
    ∃ printed hooks', print item format hooks = .ok (printed, hooks') ∧
      (∀ cells ∈ printed, cells = (render format 0 item ++ [0]).map some ∧ hooks'.live = hooks.live + 1) ∧
      (printed = none → hooks'.live = hooks.live ∧ (false ∈ hooks.answers ∨
        intMax.toNat < (render format 0 item).length + 2 ∨ nestingLimit < levels)) := by
  unfold print
  by_cases granted : hooks.granted = true
  swap
  · rw [if_pos granted]
    exact ⟨none, hooks.asked, rfl, fun _ no => (by cases no), fun _ => ⟨rfl, .inl (refused granted)⟩⟩
  rw [if_neg (not_not.mpr granted)]
  have start : Settled 0 format [] ⟨some (Cells.unwritten defaultBufferSize), 0, 0, format, hooks.asked.allocated⟩ :=
    ⟨rfl, rfl, rfl, _, rfl, Cells.hold_nil _, by rw [Cells.length_unwritten]; decide, by rw [Cells.length_unwritten]; decide⟩
  have steps := Step.cons (printValue_step item levels format tree) (.cons updateOffset_whole .nil)
  obtain ⟨printed, p, ran, beside, answers, onSuccess, onFailure⟩ := steps _ start
  have kept : p.beside = hooks.live := by
    rw [beside]
    exact Int.add_sub_cancel hooks.live 1
  have asked : p.hooks.answers <:+ hooks.answers := answers.trans (List.tail_suffix _)
  rw [ran, ok_bind]
  dsimp only
  cases printed with
  | true =>
    obtain ⟨-, -, atOffset, cells, isBuffer, hold, -, -⟩ := onSuccess rfl
    have live : p.hooks.live - 1 = hooks.live := by
      rwa [PrintBuffer.beside, isBuffer, Option.isSome_some, if_pos rfl] at kept
    have cut := hold.resize_length
    rw [List.length_append, List.length_singleton, ← atOffset] at cut
    rw [isBuffer]
    dsimp only
    by_cases again : p.hooks.granted = true
    · rw [if_pos again]
      refine ⟨_, _, rfl, fun cells' same => ?_, fun no => (by cases no)⟩
      cases same
      exact ⟨cut, by change p.hooks.live = _; omega⟩
    · rw [if_neg again]
      exact ⟨none, _, rfl, fun _ no => (by cases no), fun _ => ⟨live, .inl (asked.subset (refused again))⟩⟩
  | false =>
    have why : false ∈ hooks.answers ∨ intMax.toNat < (render format 0 item).length + 2 ∨ nestingLimit < levels := by
      rcases onFailure rfl with no | long | deep
      · exact .inl (List.mem_of_mem_tail no)
      · exact .inr (.inl long)
      · exact .inr (.inr (by omega))
    cases lost : p.buffer with
    | none =>
      rw [PrintBuffer.beside, lost, Option.isSome_none, if_neg (by decide), sub_zero] at kept
      exact ⟨none, _, rfl, fun _ no => (by cases no), fun _ => ⟨kept, why⟩⟩
    | some cells =>
      rw [PrintBuffer.beside, lost, Option.isSome_some, if_pos rfl] at kept
      exact ⟨none, _, rfl, fun _ no => (by cases no), fun _ => ⟨kept, why⟩⟩

end Trigger.CJson
