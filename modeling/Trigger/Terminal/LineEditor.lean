import Trigger.Foundation.Runs
import Trigger.Terminal.Console

/-! The line editor of the console as a plain line of text.

The ghost line is edited beside the console; the two agree as long as F4 never
leaves the console with a line half typed.
-/

set_option autoImplicit false

namespace Trigger.Terminal
open Foundation

variable {K : Type}

/-- A frame of `engine_update` with the console open, the console drawn, or the
console opened again. -/
inductive ConsoleEvent (K : Type) where
  | frame (levelName : Bytes) (input : ConsoleInput K) (output : ReadResult)
  | draw
  | reopen

def consoleStep [Scalar K] (session : Session K) : ConsoleEvent K → Except Fault (Session K)
  | .frame levelName input output =>
    if session.temuRun then do
      let session ← updateInput session levelName input
      engineUpdateConsole session output
    else .ok session
  | .draw => .ok { session with console := drawConsole session.console }
  | .reopen => .ok { session with temuRun := true }

def typedByte (input : ConsoleInput K) : UInt8 := UInt8.ofNat input.charPressed.toNat

def typedLine (session : Session K) (input : ConsoleInput K) (line : Bytes) : Bytes :=
  if Accepts session input then line ++ [typedByte input] else line

def editedLine (session : Session K) (input : ConsoleInput K) (line : Bytes) : Bytes :=
  if input.f4 then []
  else
    let line := if input.enter then [] else typedLine session input line
    if input.backspace then line.dropLast else line

structure Edited (K : Type) where
  session : Session K
  line : Bytes

def editStep [Scalar K] (edited : Edited K) (event : ConsoleEvent K) : Except Fault (Edited K) := do
  let session ← consoleStep edited.session event
  let line := match event with
    | .frame _ input _ => if edited.session.temuRun then editedLine edited.session input edited.line else edited.line
    | _ => edited.line
  return ⟨session, line⟩

/-- At most one character with a code up to 127 in a frame. -/
def TypesAscii (input : ConsoleInput K) : Prop := 0 ≤ input.charPressed ∧ input.charPressed ≤ 127

/-- F4 is pressed on an empty line only, and not together with Enter. -/
def ClosesEmpty (session : Session K) (input : ConsoleInput K) : Prop :=
  input.f4 → session.console.cmdPos = 0 ∧ ¬ Accepts session input ∧ ¬ input.enter

def GoodEvent (edited : Edited K) : ConsoleEvent K → Prop
  | .frame _ input _ => TypesAscii input ∧ (edited.session.temuRun → ClosesEmpty edited.session input)
  | _ => True

instance (session : Session K) (input : ConsoleInput K) : Decidable (ClosesEmpty session input) :=
  inferInstanceAs (Decidable (_ → _))

instance (edited : Edited K) (event : ConsoleEvent K) : Decidable (GoodEvent edited event) :=
  match event with
  | .frame _ input _ =>
    inferInstanceAs (Decidable ((0 ≤ input.charPressed ∧ input.charPressed ≤ 127) ∧
      (edited.session.temuRun → ClosesEmpty edited.session input)))
  | .draw => isTrue trivial
  | .reopen => isTrue trivial

/-! ## The property -/

structure ShowsLine (console : Console) (line : Bytes) : Prop where
  bound : console.cmdPos ≤ 255
  typed : console.command.val.take console.cmdPos = line
  ended : console.command.val[console.cmdPos]? = some 0

/-- The frame appends the line and a line feed to what its opening steps wrote, and keeps
the line as the last command. -/
def EntersLine [Scalar K] (session : Session K) (line levelName : Bytes) (input : ConsoleInput K) : Prop :=
  ∃ opened next buf, charStep session levelName input = .ok opened ∧
    updateInput session levelName input = .ok next ∧
    next.console.lastCommand.val = typedLine session input line ∧
    next.pipe = opened.pipe ++ [⟨buf, (typedLine session input line).length⟩, lineFeed] ∧
    buf.take (typedLine session input line).length = typedLine session input line

structure Holds (console : Console) (line : Bytes) : Prop where
  position : console.cmdPos = line.length
  bound : line.length ≤ 255
  content : console.command.val = line ++ List.replicate (256 - line.length) 0
  noNul : 0 ∉ line

theorem Holds.showsLine {console : Console} {line : Bytes} (holds : Holds console line) :
    ShowsLine console line where
  bound := holds.position ▸ holds.bound
  typed := by rw [holds.content, holds.position, List.take_left]
  ended := by
    have bound := holds.bound
    rw [holds.content, holds.position, List.getElem?_append_right (Nat.le_refl _), Nat.sub_self,
      List.getElem?_replicate, if_pos (by omega)]

theorem store_of_lt {size position : Nat} (buffer : Buffer size) (inside : position < size) (byte : UInt8) :
    ∃ stored, buffer.store position byte = .ok stored ∧ stored.val = buffer.val.set position byte :=
  ⟨_, if_pos inside, rfl⟩

theorem set_end (line : Bytes) (count : Nat) (byte : UInt8) :
    (line ++ List.replicate (count + 1) 0).set line.length byte =
      (line ++ [byte]) ++ List.replicate count 0 := by
  rw [List.set_append_right _ _ (Nat.le_refl _), Nat.sub_self, List.replicate_succ, List.set_cons_zero,
    List.append_assoc, List.singleton_append]

theorem Holds.inside {console : Console} {line : Bytes} (holds : Holds console line) :
    console.cmdPos < 256 := by
  have position := holds.position
  have bound := holds.bound
  omega

theorem storeChar_spec {session : Session K} {line : Bytes} (holds : Holds session.console line)
    {key : Int} (room : line.length < 255) (nonzero : UInt8.ofNat key.toNat ≠ 0) :
    ∃ next, storeChar session key = .ok next ∧ Holds next.console (line ++ [UInt8.ofNat key.toNat]) := by
  obtain ⟨command, stored, content⟩ :=
    store_of_lt session.console.command holds.inside (UInt8.ofNat key.toNat)
  refine ⟨_, bind_ok_iff.mpr ⟨command, stored, rfl⟩, ⟨?_, ?_, ?_, ?_⟩⟩
  · simp [holds.position]
  · simp only [List.length_append, List.length_singleton]
    omega
  · obtain ⟨count, split⟩ : ∃ count, 256 - line.length = count + 1 := ⟨255 - line.length, by omega⟩
    simp only [content, holds.content, holds.position, split, set_end, List.length_append,
      List.length_singleton]
    congr 2
    omega
  · simp [holds.noNul, Ne.symm nonzero]

theorem openingStep_console [Scalar K] (session : Session K) (levelName : Bytes) (frameTime : K) :
    (openingStep session levelName frameTime).console = { session.console with outputBuf := emptyOutput } := by
  unfold openingStep
  dsimp only
  split
  · split
    · unfold waitStep
      dsimp only
      split <;> rfl
    · unfold waitStep
      dsimp only
      split <;> rfl
    · rfl
    · rfl
    · rfl
  · split <;> rfl

theorem charStep_spec [Scalar K] {session : Session K} {line : Bytes} (holds : Holds session.console line)
    (levelName : Bytes) {input : ConsoleInput K} (ascii : TypesAscii input) :
    ∃ opened, charStep session levelName input = .ok opened ∧
      Holds opened.console (typedLine session input line) := by
  unfold charStep typedLine
  by_cases accepts : Accepts session input
  · obtain ⟨key, room, -⟩ := id accepts
    -- A code from 1 to 127 is not cut to the terminator.
    have nonzero : UInt8.ofNat input.charPressed.toNat ≠ 0 := by
      intro zero
      have value := congrArg UInt8.toNat zero
      have above := ascii.2
      simp only [UInt8.toNat_ofNat', UInt8.toNat_zero] at value
      omega
    rw [if_pos accepts, if_pos accepts]
    exact storeChar_spec holds (holds.position ▸ room) nonzero
  · rw [if_neg accepts, if_neg accepts]
    by_cases opens : Opens session input
    · refine ⟨_, if_pos opens, ?_⟩
      rw [openingStep_console]
      exact ⟨holds.position, holds.bound, holds.content, holds.noNul⟩
    · exact ⟨session, if_neg opens, holds⟩

theorem f4Step_spec {session : Session K} (holds : Holds session.console []) :
    ∃ next, f4Step session = .ok next ∧ Holds next.console [] := by
  obtain ⟨command, stored, content⟩ :=
    store_of_lt session.console.command (by decide : 0 < 256) 0
  refine ⟨_, bind_ok_iff.mpr ⟨command, stored, rfl⟩, holds.position, by simp, ?_, by simp⟩
  simp only [content, holds.content]
  rfl

theorem enterStep_spec {session : Session K} {line : Bytes} (holds : Holds session.console line) :
    ∃ next buf, enterStep session = .ok next ∧ Holds next.console [] ∧
      next.console.lastCommand.val = line ∧
      next.pipe = session.pipe ++ [⟨buf, line.length⟩, lineFeed] ∧ buf.take line.length = line := by
  obtain ⟨command, stored, content⟩ := store_of_lt session.console.command holds.inside 0
  have bound := holds.bound
  obtain ⟨count, split⟩ : ∃ count, 256 - line.length = count + 1 := ⟨255 - line.length, by omega⟩
  have same : command.val = line ++ List.replicate (count + 1) 0 := by
    rw [content, holds.content, holds.position, split, set_end, List.replicate_succ, List.append_assoc,
      List.singleton_append]
  -- The line is shorter than the buffer, so the terminator fits behind it.
  have terminated : 0 ∈ command.val := by simp [same]
  have string : command.string = .ok ⟨cString command.val, by
      have shorter := length_cString_lt terminated
      have size := command.property
      omega⟩ := dif_pos terminated
  refine ⟨_, command.val, bind_ok_iff.mpr ⟨command, stored, bind_ok_iff.mpr ⟨_, string, rfl⟩⟩,
    ⟨rfl, by simp, rfl, by simp⟩, ?_, ?_, ?_⟩
  · simp only [same, List.replicate_succ, cString_stored holds.noNul]
  · simp only [Session.write]
    split <;> simp [Session.close, holds.position]
  · rw [same, List.take_left]

theorem backspaceStep_spec {session : Session K} {line : Bytes} (holds : Holds session.console line) :
    ∃ next, backspaceStep session = .ok next ∧ Holds next.console line.dropLast ∧
      next.console.lastCommand = session.console.lastCommand ∧ next.pipe = session.pipe := by
  unfold backspaceStep
  rcases line.eq_nil_or_concat' with rfl | ⟨front, last, rfl⟩
  · have empty : ¬ session.console.cmdPos > 0 := by simp [holds.position]
    exact ⟨session, if_neg empty, holds, rfl, rfl⟩
  · have position := holds.position
    have bound := holds.bound
    rw [List.length_append, List.length_singleton] at position bound
    obtain ⟨command, stored, content⟩ :=
      store_of_lt session.console.command (by omega : session.console.cmdPos - 1 < 256) 0
    refine ⟨_, (if_pos (by omega)).trans (bind_ok_iff.mpr ⟨command, stored, rfl⟩), ⟨?_, ?_, ?_, ?_⟩, rfl, rfl⟩
    · simp [position]
    · rw [List.dropLast_concat]
      omega
    · obtain ⟨count, split⟩ : ∃ count, 256 - (front.length + 1) = count := ⟨_, rfl⟩
      have whole : 256 - front.length = count + 1 := by omega
      simp only [content, holds.content, position, Nat.add_sub_cancel, List.dropLast_concat,
        List.length_append, List.length_singleton, split, whole, List.append_assoc]
      rw [List.set_append_right _ _ (Nat.le_refl _), Nat.sub_self, List.singleton_append, List.set_cons_zero,
        List.replicate_succ]
    · rw [List.dropLast_concat]
      exact fun zero => holds.noNul (List.mem_append_left _ zero)

theorem updateInput_f4 [Scalar K] {session opened : Session K} {levelName : Bytes} {input : ConsoleInput K}
    (typed : charStep session levelName input = .ok opened) (f4 : input.f4) :
    updateInput session levelName input = f4Step opened := by
  rw [updateInput, typed]
  exact if_pos f4

theorem updateInput_keys [Scalar K] {session opened middle : Session K} {levelName : Bytes}
    {input : ConsoleInput K} (typed : charStep session levelName input = .ok opened) (f4 : ¬ input.f4)
    (entered : onKey input.enter enterStep opened = .ok middle) :
    updateInput session levelName input = onKey input.backspace backspaceStep middle := by
  rw [updateInput, typed]
  apply (if_neg f4).trans
  rw [entered]
  rfl

theorem backspaceKey_spec {session : Session K} {line : Bytes} (holds : Holds session.console line)
    (pressed : Bool) :
    ∃ next, onKey pressed backspaceStep session = .ok next ∧
      Holds next.console (if pressed then line.dropLast else line) ∧
      next.console.lastCommand = session.console.lastCommand ∧ next.pipe = session.pipe := by
  cases pressed with
  | true => exact backspaceStep_spec holds
  | false => exact ⟨session, rfl, holds, rfl, rfl⟩

theorem updateInput_spec [Scalar K] {session : Session K} {line : Bytes} (holds : Holds session.console line)
    (levelName : Bytes) {input : ConsoleInput K} (ascii : TypesAscii input)
    (closes : ClosesEmpty session input) :
    ∃ next, updateInput session levelName input = .ok next ∧
      Holds next.console (editedLine session input line) := by
  obtain ⟨opened, typed, holdsTyped⟩ := charStep_spec holds levelName ascii
  unfold editedLine
  by_cases f4 : input.f4
  · obtain ⟨empty, refuses, -⟩ := closes f4
    -- F4 keeps the cursor, so no byte may stand before it.
    have noLine : typedLine session input line = [] := by
      rw [typedLine, if_neg refuses]
      exact List.length_eq_zero_iff.mp (holds.position.symm.trans empty)
    rw [noLine] at holdsTyped
    rw [updateInput_f4 typed f4, if_pos f4]
    exact f4Step_spec holdsTyped
  · have entered : ∃ middle, onKey input.enter enterStep opened = .ok middle ∧
        Holds middle.console (if input.enter then [] else typedLine session input line) := by
      unfold onKey
      split
      · obtain ⟨middle, _, result, holdsMiddle, -⟩ := enterStep_spec holdsTyped
        exact ⟨middle, result, holdsMiddle⟩
      · exact ⟨opened, rfl, holdsTyped⟩
    obtain ⟨middle, result, holdsMiddle⟩ := entered
    rw [updateInput_keys typed f4 result, if_neg f4]
    obtain ⟨next, erased, holdsNext, -⟩ := backspaceKey_spec holdsMiddle input.backspace
    exact ⟨next, erased, holdsNext⟩

theorem Holds.entersLine [Scalar K] {session : Session K} {line : Bytes} (holds : Holds session.console line)
    (levelName : Bytes) {input : ConsoleInput K} (ascii : TypesAscii input) (closes : ClosesEmpty session input)
    (enter : input.enter) : EntersLine session line levelName input := by
  have f4 : ¬ input.f4 := fun pressed => (closes pressed).2.2 enter
  obtain ⟨opened, typed, holdsTyped⟩ := charStep_spec holds levelName ascii
  obtain ⟨middle, buf, result, holdsMiddle, last, pipe, sent⟩ := enterStep_spec holdsTyped
  have entered : onKey input.enter enterStep opened = .ok middle := (if_pos enter).trans result
  obtain ⟨next, erased, -, sameLast, samePipe⟩ := backspaceKey_spec holdsMiddle input.backspace
  refine ⟨opened, next, buf, typed, (updateInput_keys typed f4 entered).trans erased, ?_, ?_, sent⟩
  · rw [sameLast, last]
  · rw [samePipe, pipe]

theorem engineUpdateConsole_keeps {session next : Session K} {output : ReadResult}
    (taken : engineUpdateConsole session output = .ok next) {line : Bytes}
    (holds : Holds session.console line) : Holds next.console line := by
  cases output with
  | bytes chunk =>
    obtain ⟨console, appended, same⟩ := bind_ok_iff.mp taken
    obtain ⟨cleaned, _, appended⟩ := bind_ok_iff.mp appended
    cases same
    split at appended
    · obtain ⟨outputBuf, _, same⟩ := bind_ok_iff.mp appended
      cases same
      exact ⟨holds.position, holds.bound, holds.content, holds.noNul⟩
    · cases appended
      exact ⟨holds.position, holds.bound, holds.content, holds.noNul⟩
  | wouldBlock => cases taken; exact holds
  | failed => cases taken; exact holds
  | closed => cases taken; exact holds

theorem drawConsole_keeps {console : Console} {line : Bytes} (holds : Holds console line) :
    Holds (drawConsole console) line := by
  have same : (drawConsole console).cmdPos = console.cmdPos ∧
      (drawConsole console).command = console.command := by
    unfold drawConsole
    split <;> exact ⟨rfl, rfl⟩
  exact ⟨same.1.trans holds.position, holds.bound, same.2 ▸ holds.content, holds.noNul⟩

theorem editStep_keeps [Scalar K] (edited : Edited K) (event : ConsoleEvent K) (next : Edited K)
    (holds : Holds edited.session.console edited.line) (good : GoodEvent edited event)
    (taken : editStep edited event = .ok next) : Holds next.session.console next.line := by
  obtain ⟨session, stepped, same⟩ := bind_ok_iff.mp taken
  cases same
  cases event with
  | frame levelName input output =>
    obtain ⟨ascii, closes⟩ := good
    rw [consoleStep] at stepped
    by_cases running : edited.session.temuRun
    · rw [if_pos running] at stepped
      obtain ⟨middle, updated, read⟩ := bind_ok_iff.mp stepped
      obtain ⟨middle', updated', holdsMiddle⟩ := updateInput_spec holds levelName ascii (closes running)
      cases updated.symm.trans updated'
      simp only [running, if_true]
      exact engineUpdateConsole_keeps read holdsMiddle
    · rw [if_neg running] at stepped
      cases stepped
      simp only [running, Bool.false_eq_true, if_false]
      exact holds
  | draw =>
    cases stepped
    exact drawConsole_keeps holds
  | reopen =>
    cases stepped
    exact holds

/-- In every run whose F4 keys meet an empty line and no Enter, the console holds the plain
line, and every Enter of the run sends it. -/
theorem lineEditor_refines_line [Scalar K] (session : Session K) (events : List (ConsoleEvent K))
    (empty : session.console.command = Buffer.zero 256) (start : session.console.cmdPos = 0)
    (along : Along editStep GoodEvent ⟨session, []⟩ events) :
    (∀ edited, run editStep ⟨session, []⟩ events = .ok edited → ShowsLine edited.session.console edited.line) ∧
      ∀ front levelName input output back edited, events = front ++ .frame levelName input output :: back →
        run editStep ⟨session, []⟩ front = .ok edited → edited.session.temuRun → input.enter →
        EntersLine edited.session edited.line levelName input := by
  have initial : Holds session.console [] := ⟨start, by simp, by rw [empty]; rfl, by simp⟩
  refine ⟨fun edited reached => (run_invariant editStep_keeps initial along reached).showsLine, ?_⟩
  intro front levelName input output back edited same reached opened enter
  subst same
  have holds : Holds edited.session.console edited.line :=
    run_invariant editStep_keeps initial (along_append along) reached
  obtain ⟨ascii, closes⟩ := along_iff_forall.mp along front _ back edited rfl reached
  exact holds.entersLine levelName ascii (closes opened) enter

def openSession : Session Rat := { freshSession with justOpened := false }

def keysFrame (key : Int) (f4 enter backspace : Bool) : ConsoleEvent Rat :=
  .frame (text "Обучение") ⟨key, f4, enter, backspace, 2⟩ .wouldBlock

def typeKey (key : Int) : ConsoleEvent Rat := keysFrame key false false false
def pressF4 : ConsoleEvent Rat := keysFrame 0 true false false

/-- A command with a letter taken back, F4, and after the opening steps another command. -/
def twoCommands : List (ConsoleEvent Rat) :=
  [typeKey 108, typeKey 116, keysFrame 0 false false true, typeKey 115, keysFrame 0 false true false, pressF4, .reopen,
      typeKey 120] ++
    List.replicate 5 (keysFrame 0 false false false) ++ [typeKey 105, keysFrame 100 false true false]

theorem twoCommands_refine_line :
    (∃ edited, run editStep ⟨openSession, []⟩ twoCommands = .ok edited ∧
      edited.session.console.lastCommand.val = text "id") ∧
    (∀ edited, run editStep ⟨openSession, []⟩ twoCommands = .ok edited →
      ShowsLine edited.session.console edited.line) ∧
    ∀ front levelName input output back edited, twoCommands = front ++ .frame levelName input output :: back →
      run editStep ⟨openSession, []⟩ front = .ok edited → edited.session.temuRun → input.enter →
      EntersLine edited.session edited.line levelName input :=
  ⟨exists_ok_of_succeedsWith (by decide +kernel),
    lineEditor_refines_line openSession twoCommands rfl rfl (by decide +kernel)⟩

/-- F4 with a letter typed ends the string but leaves the cursor behind it. -/
theorem pressF4_keeps_cursor :
    ∃ edited, run editStep ⟨openSession, []⟩ [typeKey 97, pressF4] = .ok edited ∧
      edited.session.console.cmdPos = 1 ∧ edited.line = [] ∧
      ¬ ShowsLine edited.session.console edited.line := by
  refine ⟨_, rfl, rfl, rfl, fun shows => ?_⟩
  exact absurd shows.typed (by decide)

end Trigger.Terminal
