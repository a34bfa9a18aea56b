import Trigger.Terminal.Output

/-! The gate before the line editor.

A console that was just opened runs its opening steps instead of taking letters. Only
the last step of the tutorial clears the gate, and leaving the console sets it again.
-/

set_option autoImplicit false

namespace Trigger.Terminal
open Foundation

variable {K : Type}

def tutorialName : Bytes := text "Обучение"

/-! ## The property -/

abbrev OpenFrame (K : Type) := ConsoleInput K × ReadResult

def frames (levelName : Bytes) (inputs : List (OpenFrame K)) : List (ConsoleEvent K) :=
  inputs.map fun frame => .frame levelName frame.1 frame.2

def TypesLetter (session : Session K) (input : ConsoleInput K) : Prop :=
  input.charPressed > 0 ∧ session.console.cmdPos < 255

def StartsOpening (session : Session K) (input : ConsoleInput K) : Prop :=
  TypesLetter session input ∧ session.justOpened = true

def IntroOver (levelName : Bytes) (session : Session K) : Prop :=
  levelName ≠ tutorialName ∨ maxStartTicks ≤ session.startTickCount

def AppendsKey [Scalar K] (session : Session K) (levelName : Bytes) (input : ConsoleInput K) : Prop :=
  ∃ next, charStep session levelName input = .ok next ∧ next.console.cmdPos = session.console.cmdPos + 1 ∧
    next.console.command.val = session.console.command.val.set session.console.cmdPos (typedByte input)

/-- In the console that is opened now, every letter is taken once a letter started the
opening step and no step of the introduction remains, until the console is left. -/
def TypingWorks [Scalar K] (levelName : Bytes) (session : Session K) : Prop :=
  ∀ front opener back opened before,
    run consoleStep { session with temuRun := true } (frames levelName front) = .ok opened →
    opened.temuRun = true → StartsOpening opened opener.1 →
    run consoleStep { session with temuRun := true } (frames levelName (front ++ opener :: back)) = .ok before →
    before.temuRun = true → IntroOver levelName before →
    ∀ input, TypesLetter before input → AppendsKey before levelName input

/-- The session before the first console was opened. -/
def firstSession [Scalar K] : Session K := ⟨freshConsole, true, 0, Scalar.ofRat 0, false, []⟩

/-- The gate is clear exactly behind the last step of the introduction. -/
def Gated (session : Session K) : Prop := session.justOpened = false ↔ maxStartTicks ≤ session.startTickCount

inductive Opening (levelName : Bytes) (before after : Session K) : Prop where
  | stays : after.justOpened = before.justOpened → after.startTickCount = before.startTickCount →
      Opening levelName before after
  | advances : levelName = tutorialName → before.startTickCount < 3 → after.justOpened = before.justOpened →
      after.startTickCount = before.startTickCount + 1 → Opening levelName before after
  | clears : levelName = tutorialName → after.justOpened = false → maxStartTicks ≤ after.startTickCount →
      Opening levelName before after

theorem waitStep_opening [Scalar K] {levelName : Bytes} {before session : Session K} (frameTime : K)
    (command : PipeWrite) (tutorial : levelName = tutorialName) (early : session.startTickCount < 3)
    (gate : session.justOpened = before.justOpened) (ticks : session.startTickCount = before.startTickCount) :
    Opening levelName before (waitStep session frameTime command) := by
  unfold waitStep
  dsimp only
  split
  · exact .advances tutorial (ticks ▸ early) gate (congrArg (· + 1) ticks)
  · exact .stays gate ticks

theorem openingStep_opening [Scalar K] (session : Session K) (levelName : Bytes) (frameTime : K) :
    Opening levelName session (openingStep session levelName frameTime) := by
  unfold openingStep
  dsimp only
  split
  · rename_i tutorial
    split
    · rename_i one
      exact waitStep_opening frameTime _ tutorial (by simp [one]) rfl rfl
    · rename_i two
      exact waitStep_opening frameTime _ tutorial (by simp [two]) rfl rfl
    · rename_i three
      refine .clears tutorial rfl ?_
      change 4 ≤ session.startTickCount + 2
      omega
    · rename_i zero
      exact .advances tutorial (by simp [zero]) rfl rfl
    · exact .stays rfl rfl
  · split <;> exact .stays rfl rfl

theorem openingStep_temuRun [Scalar K] (session : Session K) (levelName : Bytes) (frameTime : K) :
    (openingStep session levelName frameTime).temuRun = session.temuRun := by
  have waits (session : Session K) (command : PipeWrite) :
      (waitStep session frameTime command).temuRun = session.temuRun := by
    unfold waitStep
    dsimp only
    split <;> rfl
  unfold openingStep
  dsimp only
  split
  · split
    · exact waits _ _
    · exact waits _ _
    · rfl
    · rfl
    · rfl
  · split <;> rfl

structure Left (session : Session K) : Prop where
  closed : session.temuRun = false
  gate : session.justOpened = true
  ticks : session.startTickCount = 0

/-- What a frame of keys does to the gate: the letter may run an opening step, and the
keys behind it leave the console or keep the gate. -/
inductive GateStep (levelName : Bytes) (before after : Session K) : Prop where
  | stays : Opening levelName before after → after.temuRun = before.temuRun → GateStep levelName before after
  | leaves : Left after → GateStep levelName before after

theorem charStep_gate [Scalar K] {session next : Session K} {levelName : Bytes} {input : ConsoleInput K}
    (taken : charStep session levelName input = .ok next) :
    Opening levelName session next ∧ next.temuRun = session.temuRun := by
  unfold charStep at taken
  split at taken
  · obtain ⟨command, _, same⟩ := bind_ok_iff.mp taken
    cases same
    exact ⟨.stays rfl rfl, rfl⟩
  · split at taken
    · cases taken
      exact ⟨openingStep_opening .., openingStep_temuRun ..⟩
    · cases taken
      exact ⟨.stays rfl rfl, rfl⟩

theorem enterStep_gate {session next : Session K} (taken : enterStep session = .ok next) :
    Left next ∨ next.justOpened = session.justOpened ∧ next.startTickCount = session.startTickCount ∧
      next.temuRun = session.temuRun := by
  obtain ⟨command, _, rest⟩ := bind_ok_iff.mp taken
  obtain ⟨line, _, same⟩ := bind_ok_iff.mp rest
  cases same
  by_cases leaves : line.val = text "exit"
  · left
    simp only [leaves, if_true]
    exact ⟨rfl, rfl, rfl⟩
  · right
    simp only [leaves, if_false]
    exact ⟨rfl, rfl, rfl⟩

theorem backspaceStep_gate {session next : Session K} (taken : backspaceStep session = .ok next) :
    next.justOpened = session.justOpened ∧ next.startTickCount = session.startTickCount ∧
      next.temuRun = session.temuRun := by
  unfold backspaceStep at taken
  split at taken
  · obtain ⟨command, _, same⟩ := bind_ok_iff.mp taken
    cases same
    exact ⟨rfl, rfl, rfl⟩
  · cases taken
    exact ⟨rfl, rfl, rfl⟩

theorem Opening.congr {levelName : Bytes} {before middle after : Session K} (opening : Opening levelName before middle)
    (gate : after.justOpened = middle.justOpened) (ticks : after.startTickCount = middle.startTickCount) :
    Opening levelName before after := by
  cases opening with
  | stays sameGate sameTicks => exact .stays (gate.trans sameGate) (ticks.trans sameTicks)
  | advances tutorial early sameGate next => exact .advances tutorial early (gate.trans sameGate) (ticks.trans next)
  | clears tutorial clear late => exact .clears tutorial (gate.trans clear) (ticks ▸ late)

theorem updateInput_gate [Scalar K] {session next : Session K} {levelName : Bytes} {input : ConsoleInput K}
    (taken : updateInput session levelName input = .ok next) : GateStep levelName session next := by
  obtain ⟨opened, typed, rest⟩ := bind_ok_iff.mp taken
  obtain ⟨opening, running⟩ := charStep_gate typed
  split at rest
  · obtain ⟨command, _, same⟩ := bind_ok_iff.mp rest
    cases same
    exact .leaves ⟨rfl, rfl, rfl⟩
  · obtain ⟨entered, enter, erase⟩ := bind_ok_iff.mp rest
    have erased : next.justOpened = entered.justOpened ∧ next.startTickCount = entered.startTickCount ∧
        next.temuRun = entered.temuRun := by
      unfold onKey at erase
      split at erase
      · exact backspaceStep_gate erase
      · cases erase
        exact ⟨rfl, rfl, rfl⟩
    have sent : Left entered ∨ entered.justOpened = opened.justOpened ∧
        entered.startTickCount = opened.startTickCount ∧ entered.temuRun = opened.temuRun := by
      unfold onKey at enter
      split at enter
      · exact enterStep_gate enter
      · cases enter
        exact .inr ⟨rfl, rfl, rfl⟩
    rcases sent with left | ⟨gate, ticks, runs⟩
    · exact .leaves ⟨erased.2.2.trans left.closed, erased.1.trans left.gate, erased.2.1.trans left.ticks⟩
    · exact .stays (opening.congr (erased.1.trans gate) (erased.2.1.trans ticks))
        (erased.2.2.trans (runs.trans running))

theorem engineUpdateConsole_gate {session next : Session K} {output : ReadResult}
    (taken : engineUpdateConsole session output = .ok next) : next.justOpened = session.justOpened ∧
      next.startTickCount = session.startTickCount ∧ (next.temuRun = true → session.temuRun = true) := by
  cases output with
  | bytes chunk =>
    obtain ⟨console, _, same⟩ := bind_ok_iff.mp taken
    cases same
    exact ⟨rfl, rfl, id⟩
  | wouldBlock => cases taken; exact ⟨rfl, rfl, id⟩
  | failed => cases taken; exact ⟨rfl, rfl, nofun⟩
  | closed => cases taken; exact ⟨rfl, rfl, nofun⟩

theorem GateStep.gated {levelName : Bytes} {before after : Session K} (step : GateStep levelName before after)
    (gated : Gated before) : Gated after := by
  unfold Gated at gated ⊢
  cases step with
  | stays opening =>
    cases opening with
    | stays gate ticks => rw [gate, ticks, gated]
    | advances _ early gate next =>
      rw [gate, next, gated]
      simp only [maxStartTicks]
      omega
    | clears _ clear late => simp [clear, late]
  | leaves left =>
    rw [left.gate, left.ticks]
    decide

theorem consoleStep_gated [Scalar K] {session next : Session K} {event : ConsoleEvent K} (gated : Gated session)
    (taken : consoleStep session event = .ok next) : Gated next := by
  cases event with
  | frame levelName input output =>
    rw [consoleStep] at taken
    split at taken
    · obtain ⟨middle, updated, read⟩ := bind_ok_iff.mp taken
      obtain ⟨gate, ticks, -⟩ := engineUpdateConsole_gate read
      rw [Gated, gate, ticks]
      exact (updateInput_gate updated).gated gated
    · cases taken
      exact gated
  | draw => cases taken; exact gated
  | reopen => cases taken; exact gated

/-- As long as the console stays open, a clear gate stays clear. -/
def ClearWhileOpen (session : Session K) : Prop := session.temuRun = true → session.justOpened = false

theorem frame_clear [Scalar K] {session next : Session K} {levelName : Bytes} {input : ConsoleInput K}
    {output : ReadResult} (clear : ClearWhileOpen session)
    (taken : consoleStep session (.frame levelName input output) = .ok next) : ClearWhileOpen next := by
  rw [consoleStep] at taken
  split at taken
  · rename_i running
    obtain ⟨middle, updated, read⟩ := bind_ok_iff.mp taken
    obtain ⟨gate, -, runs⟩ := engineUpdateConsole_gate read
    intro open'
    rw [gate]
    cases updateInput_gate updated with
    | stays opening _ =>
      cases opening with
      | stays same _ => exact same.trans (clear running)
      | advances _ _ same _ => exact same.trans (clear running)
      | clears _ cleared _ => exact cleared
    | leaves left => exact absurd ((runs open').symm.trans left.closed) (by decide)
  · cases taken
    exact clear

theorem consoleStep_bounded [Scalar K] {session next : Session K} {event : ConsoleEvent K}
    (bounded : Bounded session.console) (taken : consoleStep session event = .ok next) : Bounded next.console := by
  cases event with
  | frame levelName input output =>
    rw [consoleStep] at taken
    split at taken
    · obtain ⟨middle, updated, read⟩ := bind_ok_iff.mp taken
      rw [← updateConsoleWith_clearStr] at read
      have typed : callStep clearStr session (.updateInput levelName input) = .ok middle := updated
      have shown : callStep clearStr middle (.updateConsole output) = .ok next := read
      exact callStep_bounded (callStep_bounded bounded typed) shown
    · cases taken
      exact bounded
  | draw =>
    cases taken
    exact drawConsole_bounded bounded
  | reopen => cases taken; exact bounded

theorem appendsKey_of_clear [Scalar K] {session : Session K} (levelName : Bytes) {input : ConsoleInput K}
    (letter : TypesLetter session input) (clear : session.justOpened = false) : AppendsKey session levelName input := by
  have room := letter.2
  obtain ⟨command, stored, content⟩ := store_of_lt session.console.command (by omega : session.console.cmdPos < 256)
    (typedByte input)
  exact ⟨_, (if_pos ⟨letter.1, letter.2, clear⟩).trans (bind_ok_iff.mpr ⟨command, stored, rfl⟩), rfl, content⟩

theorem run_gated [Scalar K] {session final : Session K} {events : List (ConsoleEvent K)} (gated : Gated session)
    (reached : run consoleStep session events = .ok final) : Gated final :=
  run_keeps Gated (fun _ _ _ gated taken => consoleStep_gated gated taken) gated reached

theorem run_clear [Scalar K] {session final : Session K} {levelName : Bytes} {inputs : List (OpenFrame K)}
    (clear : ClearWhileOpen session) (reached : run consoleStep session (frames levelName inputs) = .ok final) :
    ClearWhileOpen final := by
  induction inputs generalizing session with
  | nil =>
    cases reached
    exact clear
  | cons frame rest ih =>
    obtain ⟨next, taken, remaining⟩ := run_cons_ok_iff.mp reached
    exact ih (frame_clear clear taken) remaining

theorem typingWorks_of_tutorial [Scalar K] {session : Session K} (gated : Gated session) :
    TypingWorks tutorialName session := by
  intro front opener back opened before _ _ _ reached running isOver input letter
  have start : Gated ({ session with temuRun := true } : Session K) := gated
  refine appendsKey_of_clear tutorialName letter ((run_gated start reached).mpr ?_)
  exact isOver.resolve_left fun other => other rfl

theorem typingWorks_of_clear [Scalar K] {session : Session K} (levelName : Bytes) (clear : session.justOpened = false) :
    TypingWorks levelName session := by
  intro front opener back opened before reached running starts
  have start : ClearWhileOpen ({ session with temuRun := true } : Session K) := fun _ => clear
  exact absurd ((run_clear start reached running).symm.trans starts.2) (by decide)

def letterFrame [Scalar K] : OpenFrame K := (⟨97, false, false, false, Scalar.ofRat 0⟩, .wouldBlock)
def eraseFrame [Scalar K] : OpenFrame K := (⟨0, false, false, true, Scalar.ofRat 0⟩, .wouldBlock)

structure Waiting (session : Session K) : Prop where
  running : session.temuRun = true
  gate : session.justOpened = true
  room : session.console.cmdPos < 255

section
variable [Scalar K] {levelName : Bytes} {session : Session K}

theorem charStep_letter (waiting : Waiting session) : charStep session levelName letterFrame.1 =
    .ok (openingStep session levelName (Scalar.ofRat 0)) := by
  have refuses : ¬ Accepts session (letterFrame (K := K)).1 := fun accepts =>
    absurd (waiting.gate.symm.trans accepts.2.2) (by decide)
  exact (if_neg refuses).trans (if_pos (.inl ⟨(by decide : (0 : Int) < 97), waiting.room⟩))

theorem openingStep_waiting (other : levelName ≠ tutorialName) (waiting : Waiting session) (frameTime : K) :
    Waiting (openingStep session levelName frameTime) := by
  refine ⟨(openingStep_temuRun ..).trans waiting.running, ?_, ?_⟩
  · cases openingStep_opening session levelName frameTime with
    | stays gate _ => exact gate.trans waiting.gate
    | advances tutorial => exact absurd tutorial other
    | clears tutorial => exact absurd tutorial other
  · rw [openingStep_console]
    exact waiting.room

theorem letterFrame_waits (other : levelName ≠ tutorialName) (waiting : Waiting session) :
    ∃ next, consoleStep session (.frame levelName letterFrame.1 .wouldBlock) = .ok next ∧ Waiting next := by
  refine ⟨_, ?_, openingStep_waiting other waiting (Scalar.ofRat 0)⟩
  have typed : updateInput session levelName (letterFrame (K := K)).1 =
      .ok (openingStep session levelName (Scalar.ofRat 0)) :=
    updateInput_keys (charStep_letter waiting) Bool.false_ne_true rfl
  exact (if_pos waiting.running).trans (bind_ok_iff.mpr ⟨_, typed, rfl⟩)

theorem not_appendsKey (waiting : Waiting session) : ¬ AppendsKey session levelName letterFrame.1 := by
  rintro ⟨next, taken, position, -⟩
  cases (charStep_letter waiting).symm.trans taken
  rw [openingStep_console] at position
  exact absurd position (Nat.ne_of_lt (Nat.lt_succ_self _))

theorem eraseFrame_waits (other : levelName ≠ tutorialName) (running : session.temuRun = true)
    (gate : session.justOpened = true) (cursor : session.console.cmdPos = 255) :
    ∃ next, consoleStep session (.frame levelName eraseFrame.1 .wouldBlock) = .ok next ∧ Waiting next := by
  obtain ⟨opened, typed, same⟩ : ∃ opened, charStep session levelName (eraseFrame (K := K)).1 = .ok opened ∧
      opened.console.cmdPos = 255 := by
    have refuses : ¬ Accepts session (eraseFrame (K := K)).1 := fun accepts => absurd accepts.1 (Int.lt_irrefl 0)
    unfold charStep
    rw [if_neg refuses]
    split
    · refine ⟨_, rfl, ?_⟩
      rw [openingStep_console]
      exact cursor
    · exact ⟨session, rfl, cursor⟩
  obtain ⟨opening, runs⟩ := charStep_gate typed
  have set : opened.justOpened = true := by
    cases opening with
    | stays sameGate _ => exact sameGate.trans gate
    | advances tutorial => exact absurd tutorial other
    | clears tutorial => exact absurd tutorial other
  obtain ⟨command, stored, -⟩ := store_of_lt opened.console.command (by omega : opened.console.cmdPos - 1 < 256) 0
  have erased : backspaceStep opened = .ok { opened with
      console := { opened.console with command, cmdPos := opened.console.cmdPos - 1 } } :=
    (if_pos (by omega)).trans (bind_ok_iff.mpr ⟨command, stored, rfl⟩)
  have keys := (updateInput_keys typed Bool.false_ne_true rfl).trans erased
  refine ⟨_, (if_pos running).trans (bind_ok_iff.mpr ⟨_, keys, rfl⟩), runs.trans running, set, ?_⟩
  change opened.console.cmdPos - 1 < 255
  omega

/-- Where the gate is set, letters are lost however long they are typed. -/
theorem not_typingWorks (other : levelName ≠ tutorialName) (gate : session.justOpened = true)
    (cursor : session.console.cmdPos ≤ 255) : ¬ TypingWorks levelName session := by
  intro works
  -- The line is made room in first, should it be full.
  obtain ⟨front, opened, reached, waiting⟩ : ∃ front opened,
      run consoleStep { session with temuRun := true } (frames levelName front) = .ok opened ∧ Waiting opened := by
    by_cases room : session.console.cmdPos < 255
    · exact ⟨[], _, rfl, rfl, gate, room⟩
    · have full : session.console.cmdPos = 255 := by omega
      have start : ({ session with temuRun := true } : Session K).temuRun = true := rfl
      obtain ⟨next, taken, waiting⟩ := eraseFrame_waits other start gate full
      exact ⟨[eraseFrame], next, run_cons_of_ok taken [], waiting⟩
  obtain ⟨before, taken, waits⟩ := letterFrame_waits other waiting
  have letter : TypesLetter before (letterFrame (K := K)).1 := ⟨(by decide : (0 : Int) < 97), waits.room⟩
  have typed : run consoleStep { session with temuRun := true } (frames levelName (front ++ [letterFrame])) =
      .ok before := by
    rw [frames, List.map_append]
    exact run_concat_of_ok reached taken
  exact not_appendsKey waits (works front letterFrame [] opened before reached waiting.running
    ⟨⟨(by decide : (0 : Int) < 97), waiting.room⟩, waiting.gate⟩ typed waits.running (.inl other) _ letter)

end

/-- After any run of the console, typing works in a level that is entered exactly when
it is the tutorial or the gate was cleared before. -/
theorem typingWorks_iff [Scalar K] (levelName : Bytes) (events : List (ConsoleEvent K)) {session : Session K}
    (reached : run consoleStep firstSession events = .ok session) :
    TypingWorks levelName session ↔ levelName = tutorialName ∨ session.justOpened = false := by
  constructor
  · intro works
    by_contra neither
    rw [not_or, Bool.not_eq_false] at neither
    have bounded := run_keeps (fun state : Session K => Bounded state.console)
      (fun _ _ _ bounded taken => consoleStep_bounded bounded taken) freshConsole_bounded reached
    exact not_typingWorks neither.1 neither.2 bounded.cursor works
  · rintro (rfl | clear)
    · have start : Gated (firstSession : Session K) := by
        change true = false ↔ (4 : Int) ≤ 0
        decide
      exact typingWorks_of_tutorial (run_gated start reached)
    · exact typingWorks_of_clear levelName clear

def finishTutorial : List (ConsoleEvent Rat) :=
  .reopen :: List.replicate 5 (.frame tutorialName ⟨97, false, false, false, 2⟩ .wouldBlock) ++
    [.frame tutorialName ⟨0, false, false, false, 2⟩ .closed]

/-- The end of the emulator closes the console and leaves the gate clear, for the other levels too. -/
theorem finishedTutorial_typingWorks : ∃ session, run consoleStep firstSession finishTutorial = .ok session ∧
    session.temuRun = false ∧ TypingWorks (text "Уровень 1") session := by
  have clears : succeedsWith (fun session : Session Rat => session.temuRun = false ∧ session.justOpened = false)
      (run consoleStep firstSession finishTutorial) = true := by decide +kernel
  obtain ⟨session, reached, closed, gate⟩ := exists_ok_of_succeedsWith clears
  exact ⟨session, reached, closed, (typingWorks_iff (text "Уровень 1") finishTutorial reached).mpr (.inr gate)⟩

/-- In a level that is not the tutorial the first console takes no letter. -/
theorem otherLevel_not_typingWorks : ¬ TypingWorks (text "Уровень 1") (firstSession : Session Rat) :=
  not_typingWorks (by decide) rfl (by decide)

end Trigger.Terminal
