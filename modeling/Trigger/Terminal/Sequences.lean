import Trigger.Terminal.Filter

/-! What `clear_str` keeps of a terminal's output: plain text between control sequences,
each of which ends with a byte of its own.

The scan ends every sequence at a letter m, so the text behind a sequence with another
final byte is taken for a part of it.
-/

set_option autoImplicit false

namespace Trigger.Terminal
open Foundation

structure PlainText where
  bytes : Bytes
  plain : ∀ byte ∈ bytes, ¬ IsControl byte ∧ byte ≠ tilde ∧ byte ≠ hash

/-- ESC '[', parameter and intermediate bytes, and the final byte. -/
structure ControlSequence where
  params : Bytes
  final : UInt8
  inRange : ∀ byte ∈ params, 32 ≤ byte ∧ byte ≤ 63
  ends : 64 ≤ final ∧ final ≤ 126

inductive Piece where
  | text (shown : PlainText)
  | sequence (control : ControlSequence)

def ControlSequence.bytes (control : ControlSequence) : Bytes :=
  escape :: bracket :: (control.params ++ [control.final])

def Piece.bytes : Piece → Bytes
  | .text shown => shown.bytes
  | .sequence control => control.bytes

def Piece.shown : Piece → Bytes
  | .text shown => shown.bytes
  | .sequence _ => []

def emitted (pieces : List Piece) : Bytes := pieces.flatMap Piece.bytes

def shownText (pieces : List Piece) : Bytes := pieces.flatMap Piece.shown

def sequences (pieces : List Piece) : List ControlSequence :=
  pieces.filterMap fun
    | .text _ => none
    | .sequence control => some control

def ControlSequence.Prompts (control : ControlSequence) : Prop := hash ∈ control.params ∨ control.final = tilde

instance (control : ControlSequence) : Decidable control.Prompts := inferInstanceAs (Decidable (_ ∨ _))

/-- Text behind these pieces is read: no prompt is seen in them, and the last sequence ends
with the letter m. -/
structure ReadsBehind (front : List Piece) : Prop where
  uncut : ∀ control ∈ sequences front, ¬ control.Prompts
  ended : ∀ control, (sequences front).getLast? = some control → control.final = letterM

def KeepsText (pieces : List Piece) : Prop :=
  ∀ front shown back, pieces = front ++ .text shown :: back → shown.bytes ≠ [] → ReadsBehind front

inductive Mode where
  | reading
  | skipping
  | cut
  deriving DecidableEq

def Mode.after (mode : Mode) (control : ControlSequence) : Mode :=
  if mode = .cut ∨ control.Prompts then .cut else if control.final = letterM then .reading else .skipping

def cleaned : Mode → List Piece → Bytes
  | _, [] => []
  | .reading, .text shown :: rest => shown.bytes ++ cleaned .reading rest
  | .skipping, .text shown :: rest =>
    if letterM ∈ shown.bytes then (shown.bytes.dropWhile (· ≠ letterM)).tail ++ cleaned .reading rest
    else cleaned .skipping rest
  | .cut, .text _ :: rest => cleaned .cut rest
  | mode, .sequence control :: rest => cleaned (mode.after control) rest

theorem PlainText.noNul (shown : PlainText) : 0 ∉ shown.bytes := fun zero => (shown.plain 0 zero).1 (by decide)

theorem ControlSequence.noNul (control : ControlSequence) : 0 ∉ control.params ++ [control.final] := by
  intro zero
  rcases List.mem_append.mp zero with inside | last
  · exact absurd (control.inRange 0 inside).1 (by decide)
  · have low := control.ends.1
    rw [← List.mem_singleton.mp last] at low
    exact absurd low (by decide)

theorem ControlSequence.noLetter (control : ControlSequence) : letterM ∉ control.params := fun letter =>
  absurd (control.inRange letterM letter).2 (by decide)

theorem ControlSequence.noTilde (control : ControlSequence) : tilde ∉ control.params := fun member =>
  absurd (control.inRange tilde member).2 (by decide)

theorem ControlSequence.final_ne_hash (control : ControlSequence) : control.final ≠ hash := fun same =>
  absurd (same ▸ control.ends.1) (by decide)

theorem noNul_emitted (pieces : List Piece) : 0 ∉ emitted pieces := by
  intro zero
  obtain ⟨piece, -, member⟩ := List.mem_flatMap.mp zero
  cases piece with
  | text shown => exact shown.noNul member
  | sequence control =>
    rcases List.mem_cons.mp member with same | rest
    · exact absurd same (by decide)
    · rcases List.mem_cons.mp rest with same | inside
      · exact absurd same (by decide)
      · exact control.noNul inside

theorem beforePrompt_append {front : Bytes} (clean : tilde ∉ front ∧ hash ∉ front) (rest : Bytes) :
    beforePrompt (front ++ rest) = front ++ beforePrompt rest := by
  rw [beforePrompt, List.takeWhile_append_of_pos, List.takeWhile_append_of_pos, beforePrompt]
  · exact fun byte member => decide_eq_true fun same => clean.2 (same ▸ member)
  · exact fun byte member => decide_eq_true fun same => clean.1 (same ▸ member)

theorem beforePrompt_hash (rest : Bytes) : beforePrompt (hash :: rest) = [] := by
  rw [beforePrompt, List.takeWhile_cons_of_pos (by decide), List.takeWhile_cons_of_neg (by decide)]

theorem beforePrompt_tilde (rest : Bytes) : beforePrompt (tilde :: rest) = [] := by
  rw [beforePrompt, List.takeWhile_cons_of_neg (by decide)]
  rfl

/-- Where a sequence holds a prompt, what is before it is an unfinished sequence. -/
theorem ControlSequence.cut {control : ControlSequence} (prompts : control.Prompts) (rest : Bytes) :
    ∃ body, letterM ∉ body ∧ 0 ∉ body ∧ beforePrompt (control.bytes ++ rest) = escape :: bracket :: body := by
  have noNul : 0 ∉ control.params := fun zero => control.noNul (List.mem_append_left _ zero)
  by_cases inside : hash ∈ control.params
  · obtain ⟨body, later, same, noHash⟩ := List.eq_append_cons_of_mem inside
    have front : body ⊆ control.params := same ▸ List.subset_append_left ..
    refine ⟨body, fun letter => control.noLetter (front letter), fun zero => noNul (front zero), ?_⟩
    have clean : tilde ∉ escape :: bracket :: body ∧ hash ∉ escape :: bracket :: body := by
      have noTilde : tilde ∉ body := fun member => control.noTilde (front member)
      constructor
      · simpa [noTilde] using (by decide : tilde ≠ escape ∧ tilde ≠ bracket)
      · simpa [noHash] using (by decide : hash ≠ escape ∧ hash ≠ bracket)
    have whole : control.bytes ++ rest = (escape :: bracket :: body) ++ hash :: (later ++ (control.final :: rest)) := by
      rw [ControlSequence.bytes, same]
      simp
    rw [whole, beforePrompt_append clean, beforePrompt_hash, List.append_nil]
  · have last := prompts.resolve_left inside
    refine ⟨control.params, control.noLetter, noNul, ?_⟩
    have clean : tilde ∉ escape :: bracket :: control.params ∧ hash ∉ escape :: bracket :: control.params := by
      constructor
      · simpa [control.noTilde] using (by decide : tilde ≠ escape ∧ tilde ≠ bracket)
      · simpa [inside] using (by decide : hash ≠ escape ∧ hash ≠ bracket)
    have whole : control.bytes ++ rest = (escape :: bracket :: control.params) ++ tilde :: rest := by
      rw [ControlSequence.bytes, last]
      simp
    rw [whole, beforePrompt_append clean, beforePrompt_tilde, List.append_nil]

theorem ControlSequence.uncut {control : ControlSequence} (silent : ¬ control.Prompts) (rest : Bytes) :
    beforePrompt (control.bytes ++ rest) = control.bytes ++ beforePrompt rest := by
  obtain ⟨noHash, notTilde⟩ := not_or.mp silent
  refine beforePrompt_append ⟨?_, ?_⟩ rest
  · simp only [ControlSequence.bytes, List.mem_cons, List.mem_append, List.not_mem_nil, or_false, not_or]
    exact ⟨by decide, by decide, control.noTilde, Ne.symm notTilde⟩
  · simp only [ControlSequence.bytes, List.mem_cons, List.mem_append, List.not_mem_nil, or_false, not_or]
    exact ⟨by decide, by decide, noHash, Ne.symm control.final_ne_hash⟩

theorem PlainText.uncut (shown : PlainText) (rest : Bytes) :
    beforePrompt (shown.bytes ++ rest) = shown.bytes ++ beforePrompt rest :=
  beforePrompt_append ⟨fun member => (shown.plain tilde member).2.1 rfl, fun member => (shown.plain hash member).2.2 rfl⟩ rest

theorem clearScan_skip {body : Bytes} (noLetter : letterM ∉ body) (noNul : 0 ∉ body) (rest : Bytes) :
    clearScan true (body ++ rest) = clearScan true rest := by
  induction body with
  | nil => rfl
  | cons head tail ih =>
    rw [List.mem_cons, not_or] at noLetter noNul
    rw [List.cons_append, clearScan, if_neg (Ne.symm noNul.1), decide_eq_true (Ne.symm noLetter.1)]
    exact ih noLetter.2 noNul.2

theorem clearScan_text {shown : Bytes} (plain : ∀ byte ∈ shown, ¬ IsControl byte) (rest beyond : Bytes) :
    clearScan false (shown ++ (rest ++ 0 :: beyond)) = (clearScan false (rest ++ 0 :: beyond)).map (shown ++ ·) := by
  induction shown with
  | nil =>
    rw [List.nil_append]
    cases clearScan false (rest ++ 0 :: beyond) <;> rfl
  | cons head tail ih =>
    rw [List.forall_mem_cons] at plain
    have nonzero : head ≠ 0 := fun same => plain.1 (same ▸ by decide)
    rw [List.cons_append, ← List.append_assoc, clearScan_plain nonzero plain.1, List.append_assoc, ih plain.2]
    cases clearScan false (rest ++ 0 :: beyond) <;> rfl

theorem clearScan_control (control : ControlSequence) (inEscape : Bool) (rest : Bytes) :
    clearScan inEscape (control.bytes ++ rest) = clearScan (control.final ≠ letterM) rest := by
  have inside : clearScan true ((control.params ++ [control.final]) ++ rest) =
      clearScan (control.final ≠ letterM) rest := by
    have noNul : 0 ∉ control.params := fun zero => control.noNul (List.mem_append_left _ zero)
    have last : control.final ≠ 0 := fun same => control.noNul (same ▸ List.mem_append_right _ (List.mem_singleton_self _))
    rw [List.append_assoc, clearScan_skip control.noLetter noNul, List.singleton_append, clearScan, if_neg last]
  cases inEscape with
  | false => exact (clearScan_opened _).trans inside
  | true =>
    have opening : letterM ∉ [escape, bracket] ∧ 0 ∉ [escape, bracket] := by decide
    exact (clearScan_skip opening.1 opening.2 _).trans inside

theorem clearScan_swallowed (shown : PlainText) (rest : Bytes) : clearScan true (shown.bytes ++ rest) =
    if letterM ∈ shown.bytes then clearScan false ((shown.bytes.dropWhile (· ≠ letterM)).tail ++ rest)
    else clearScan true rest := by
  split
  · rename_i letter
    obtain ⟨body, later, same, noLetter⟩ := List.eq_append_cons_of_mem letter
    have noNul : 0 ∉ body := fun zero => shown.noNul (same ▸ List.mem_append_left _ zero)
    rw [same, dropWhile_letter noLetter, List.append_assoc, List.cons_append, clearScan_sequence noLetter noNul]
    rfl
  · rename_i absent
    exact clearScan_skip absent shown.noNul rest

theorem cleaned_cut (pieces : List Piece) : cleaned .cut pieces = [] := by
  induction pieces with
  | nil => rw [cleaned]
  | cons piece rest ih =>
    cases piece with
    | text shown => rw [cleaned]; exact ih
    | sequence control => rw [cleaned, Mode.after, if_pos (.inl rfl)]; exact ih

theorem clearScan_emitted (pieces : List Piece) (beyond : Bytes) :
    clearScan false (beforePrompt (emitted pieces) ++ 0 :: beyond) = .ok (cleaned .reading pieces) ∧
      clearScan true (beforePrompt (emitted pieces) ++ 0 :: beyond) = .ok (cleaned .skipping pieces) := by
  -- Both modes go through the induction together: a sequence that ends in no m leaves the scan skipping.
  induction pieces with
  | nil => exact ⟨clearScan_terminator beyond, by rw [cleaned]; rfl⟩
  | cons piece rest ih =>
    obtain ⟨reading, skipping⟩ := ih
    cases piece with
    | text shown =>
      have start : beforePrompt (emitted (.text shown :: rest)) = shown.bytes ++ beforePrompt (emitted rest) :=
        shown.uncut (emitted rest)
      rw [start, List.append_assoc]
      constructor
      · rw [clearScan_text fun byte member => (shown.plain byte member).1, reading, cleaned]
        rfl
      · rw [clearScan_swallowed, cleaned]
        split
        · have later : ∀ byte ∈ (shown.bytes.dropWhile (· ≠ letterM)).tail, ¬ IsControl byte := fun byte member =>
            (shown.plain byte ((List.dropWhile_sublist _).subset (List.mem_of_mem_tail member))).1
          rw [clearScan_text later, reading]
          rfl
        · exact skipping
    | sequence control =>
      have whole : emitted (.sequence control :: rest) = control.bytes ++ emitted rest := rfl
      rw [whole, cleaned, cleaned]
      by_cases prompts : control.Prompts
      · obtain ⟨body, noLetter, noNul, start⟩ := control.cut prompts (emitted rest)
        have skipped : clearScan true ((escape :: bracket :: body) ++ 0 :: beyond) = .ok [] :=
          clearScan_unfinished (by simp [noLetter]; decide) (by simp [noNul]; decide) beyond
        have cut (mode : Mode) : mode.after control = .cut := if_pos (.inr prompts)
        rw [start, cut, cut, cleaned_cut]
        refine ⟨?_, skipped⟩
        rw [List.cons_append, List.cons_append, clearScan_opened, clearScan_unfinished noLetter noNul]
      · rw [control.uncut prompts, List.append_assoc, clearScan_control, clearScan_control]
        by_cases last : control.final = letterM
        · have read (mode : Mode) (going : mode ≠ .cut) : mode.after control = .reading := by
            rw [Mode.after, if_neg (not_or.mpr ⟨going, prompts⟩), if_pos last]
          rw [read .reading (by decide), read .skipping (by decide), decide_eq_false (not_not.mpr last)]
          exact ⟨reading, reading⟩
        · have skip (mode : Mode) (going : mode ≠ .cut) : mode.after control = .skipping := by
            rw [Mode.after, if_neg (not_or.mpr ⟨going, prompts⟩), if_neg last]
          rw [skip .reading (by decide), skip .skipping (by decide), decide_eq_true last]
          exact ⟨skipping, skipping⟩

theorem cleaned_sublist (mode : Mode) (pieces : List Piece) : List.Sublist (cleaned mode pieces) (shownText pieces) := by
  induction pieces generalizing mode with
  | nil => rw [cleaned]; exact List.nil_sublist _
  | cons piece rest ih =>
    cases piece with
    | text shown =>
      have whole : shownText (.text shown :: rest) = shown.bytes ++ shownText rest := rfl
      rw [whole]
      cases mode with
      | reading => rw [cleaned]; exact (ih .reading).append_left shown.bytes
      | skipping =>
        rw [cleaned]
        split
        · exact ((List.tail_sublist _).trans (List.dropWhile_sublist _)).append (ih .reading)
        · exact (ih .skipping).trans (List.sublist_append_right ..)
      | cut => rw [cleaned]; exact (ih .cut).trans (List.sublist_append_right ..)
    | sequence control => rw [cleaned]; exact ih _

theorem clearStr_emitted (pieces : List Piece) : clearStr (emitted pieces) = .ok (cleaned .reading pieces) := by
  have noNul : 0 ∉ cleaned .reading pieces := by
    intro zero
    obtain ⟨piece, -, member⟩ := List.mem_flatMap.mp ((cleaned_sublist .reading pieces).subset zero)
    cases piece with
    | text shown => exact shown.noNul member
    | sequence control => cases member
  have memory : clearStr (emitted pieces) = (clearScan false (scanStart (emitted pieces ++ [0])).memory).map cString := rfl
  rw [memory, memory_scanStart (noNul_emitted pieces), (clearScan_emitted pieces _).1]
  have same : cString (cleaned .reading pieces) = cleaned .reading pieces :=
    List.takeWhile_eq_self_iff.mpr fun byte member => decide_eq_true fun zero => noNul (zero ▸ member)
  exact congrArg Except.ok same

def modeBehind (mode : Mode) (front : List Piece) : Mode := (sequences front).foldl Mode.after mode

/-- Every text is met while the scan is reading, or is empty. -/
def ReadsTexts (mode : Mode) (pieces : List Piece) : Prop :=
  ∀ front shown back, pieces = front ++ .text shown :: back → shown.bytes ≠ [] → modeBehind mode front = .reading

theorem readsTexts_text {mode : Mode} {shown : PlainText} {rest : List Piece} :
    ReadsTexts mode (.text shown :: rest) ↔ (shown.bytes ≠ [] → mode = .reading) ∧ ReadsTexts mode rest := by
  constructor
  · intro reads
    refine ⟨reads [] shown rest rfl, fun front other back same => reads (.text shown :: front) other back ?_⟩
    rw [same]
    rfl
  · rintro ⟨here, later⟩ front other back same
    cases front with
    | nil =>
      cases same
      exact here
    | cons piece front =>
      cases same
      exact later front other back rfl

theorem readsTexts_sequence {mode : Mode} {control : ControlSequence} {rest : List Piece} :
    ReadsTexts mode (.sequence control :: rest) ↔ ReadsTexts (mode.after control) rest := by
  constructor
  · intro reads front other back same
    exact reads (.sequence control :: front) other back (by rw [same]; rfl)
  · rintro later front other back same
    cases front with
    | nil => cases same
    | cons piece front =>
      cases same
      exact later front other back rfl

/-- A text that is not empty is lost, at least in part, where the scan is not reading. -/
theorem cleaned_text_shorter {mode : Mode} {shown : PlainText} (rest : List Piece) (other : mode ≠ .reading)
    (nonempty : shown.bytes ≠ []) :
    (cleaned mode (.text shown :: rest)).length < shown.bytes.length + (shownText rest).length := by
  have positive := List.length_pos_of_ne_nil nonempty
  have short (mode : Mode) := (cleaned_sublist mode rest).length_le
  cases mode with
  | reading => exact absurd rfl other
  | skipping =>
    rw [cleaned]
    split
    · have dropped := (List.dropWhile_sublist (p := fun byte => decide (byte ≠ letterM)) (l := shown.bytes)).length_le
      have atMost := short .reading
      simp only [List.length_append, List.length_tail]
      omega
    · have atMost := short .skipping
      omega
  | cut =>
    rw [cleaned]
    have atMost := short .cut
    omega

theorem cleaned_text_empty {mode : Mode} {shown : PlainText} (rest : List Piece) (empty : shown.bytes = []) :
    cleaned mode (.text shown :: rest) = cleaned mode rest := by
  cases mode with
  | reading => rw [cleaned, empty, List.nil_append]
  | skipping => rw [cleaned, empty, if_neg List.not_mem_nil]
  | cut => rw [cleaned]

theorem cleaned_eq_iff (mode : Mode) (pieces : List Piece) :
    cleaned mode pieces = shownText pieces ↔ ReadsTexts mode pieces := by
  induction pieces generalizing mode with
  | nil =>
    rw [cleaned]
    refine iff_of_true rfl fun front shown back same => ?_
    cases front <;> cases same
  | cons piece rest ih =>
    cases piece with
    | text shown =>
      have whole : shownText (.text shown :: rest) = shown.bytes ++ shownText rest := rfl
      rw [readsTexts_text, whole]
      by_cases empty : shown.bytes = []
      · rw [cleaned_text_empty rest empty, empty, List.nil_append, ih, and_iff_right fun some => absurd rfl some]
      · by_cases reading : mode = .reading
        · subst reading
          rw [cleaned, List.append_cancel_left_eq, ih, and_iff_right fun _ => rfl]
        · refine iff_of_false (fun same => ?_) fun both => reading (both.1 empty)
          have shorter := cleaned_text_shorter rest reading empty
          rw [same, List.length_append] at shorter
          exact Nat.lt_irrefl _ shorter
    | sequence control =>
      rw [readsTexts_sequence, ← ih, cleaned]
      rfl

/-! ## The condition on the sequences -/

theorem foldl_after_ne_cut {controls : List ControlSequence} :
    controls.foldl Mode.after .reading ≠ .cut ↔ ∀ control ∈ controls, ¬ control.Prompts := by
  induction controls using List.reverseRecOn with
  | nil => simp
  | append_singleton front control ih =>
    rw [List.foldl_append, List.forall_mem_append, ← ih, List.foldl_cons, List.foldl_nil, Mode.after]
    split
    · rename_i ends
      refine iff_of_false (fun other => other rfl) fun both => ?_
      rcases ends with cut | prompts
      · exact both.1 cut
      · exact both.2 control (List.mem_singleton_self _) prompts
    · rename_i goes
      obtain ⟨going, silent⟩ := not_or.mp goes
      refine iff_of_true ?_ ⟨going, fun other member => List.mem_singleton.mp member ▸ silent⟩
      split <;> decide

theorem foldl_after_eq_reading {controls : List ControlSequence} :
    controls.foldl Mode.after .reading = .reading ↔ (∀ control ∈ controls, ¬ control.Prompts) ∧
      ∀ control, controls.getLast? = some control → control.final = letterM := by
  induction controls using List.reverseRecOn with
  | nil => simp
  | append_singleton front control _ =>
    rw [List.foldl_append, List.forall_mem_append, ← foldl_after_ne_cut, List.foldl_cons, List.foldl_nil, Mode.after,
      List.getLast?_concat]
    by_cases ends : front.foldl Mode.after .reading = .cut ∨ control.Prompts
    · rw [if_pos ends]
      refine iff_of_false (by decide) fun both => ?_
      rcases ends with cut | prompts
      · exact both.1.1 cut
      · exact both.1.2 control (List.mem_singleton_self _) prompts
    · rw [if_neg ends]
      obtain ⟨going, silent⟩ := not_or.mp ends
      have fine : front.foldl Mode.after .reading ≠ .cut ∧ ∀ other ∈ [control], ¬ other.Prompts :=
        ⟨going, fun other member => List.mem_singleton.mp member ▸ silent⟩
      rw [and_iff_right fine]
      by_cases last : control.final = letterM <;> simp [last]

theorem readsTexts_iff (pieces : List Piece) : ReadsTexts .reading pieces ↔ KeepsText pieces := by
  have behind (front : List Piece) : modeBehind .reading front = .reading ↔ ReadsBehind front := by
    rw [modeBehind, foldl_after_eq_reading]
    exact ⟨fun both => ⟨both.1, both.2⟩, fun reads => ⟨reads.uncut, reads.ended⟩⟩
  constructor
  · exact fun reads front shown back same some => (behind front).mp (reads front shown back same some)
  · exact fun keeps front shown back same some => (behind front).mpr (keeps front shown back same some)

/-- `clear_str` returns the text between the sequences exactly where every text follows a
sequence that ends with the letter m, and no sequence before it holds a prompt. -/
theorem clearStr_keepsText_iff (pieces : List Piece) :
    clearStr (emitted pieces) = .ok (shownText pieces) ↔ KeepsText pieces := by
  rw [clearStr_emitted, Except.ok.injEq, cleaned_eq_iff, readsTexts_iff]

/-- ESC [2J, which clears a screen. -/
def clearScreen : ControlSequence := ⟨[50], 74, forall_mem_of_all (by decide), by decide⟩

def homeText : PlainText := ⟨text "home\n", forall_mem_of_all (by decide)⟩

/-- The text behind a cleared screen is lost up to its letter m. -/
theorem clearScreen_loses_text :
    clearStr (emitted [.sequence clearScreen, .text homeText]) = .ok (text "e\n") ∧
      shownText [.sequence clearScreen, .text homeText] = text "home\n" ∧
      clearStr (emitted [.sequence clearScreen, .text homeText]) ≠ .ok (shownText [.sequence clearScreen, .text homeText]) := by
  refine ⟨by decide, by decide, by decide⟩

end Trigger.Terminal
