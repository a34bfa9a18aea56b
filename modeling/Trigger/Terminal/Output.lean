import Trigger.Terminal.Chunking
import Trigger.Terminal.LineEditor

/-! The text the console shows, and the counter kept beside it.

Keys and drawing shorten the text and leave the counter, so the counter bounds the
text from above; what is appended is checked against the counter.
-/

set_option autoImplicit false

namespace Trigger.Terminal
open Foundation

variable {K : Type}

inductive ConsoleCall (K : Type) where
  | updateInput (levelName : Bytes) (input : ConsoleInput K)
  | updateConsole (output : ReadResult)
  | drawConsole

/-- What `engine_update_console` does with a cleaned chunk. -/
def appendText (console : Console) (cleaned : Bytes) : Except Fault Console :=
  if console.outputLen + cleaned.length < bufsiz - 1 then do
    let outputBuf ← strcat console.outputBuf cleaned
    return { console with outputBuf, outputLen := console.outputLen + cleaned.length }
  else .ok { console with outputBuf := emptyOutput, outputLen := 0 }

/-- `engine_update_console` with another function in the place of `clear_str`. -/
def updateConsoleWith (clean : Bytes → Except Fault Bytes) (session : Session K) :
    ReadResult → Except Fault (Session K)
  | .bytes chunk => do
    let cleaned ← clean chunk
    return { session with console := ← appendText session.console cleaned }
  | .wouldBlock => .ok session
  | .failed => .ok { session with temuRun := false }
  | .closed => .ok { session with temuRun := false }

theorem updateConsoleWith_clearStr (session : Session K) (output : ReadResult) :
    updateConsoleWith clearStr session output = engineUpdateConsole session output := by
  cases output with
  | bytes chunk =>
    cases found : clearStr chunk with
    | error fault => simp [updateConsoleWith, engineUpdateConsole, appendOutput, found, Bind.bind, Except.bind]
    | ok cleaned =>
      simp only [updateConsoleWith, engineUpdateConsole, appendOutput, found, Bind.bind, Except.bind]
      rfl
  | wouldBlock => rfl
  | failed => rfl
  | closed => rfl

def callStep [Scalar K] (clean : Bytes → Except Fault Bytes) (session : Session K) :
    ConsoleCall K → Except Fault (Session K)
  | .updateInput levelName input => updateInput session levelName input
  | .updateConsole output => updateConsoleWith clean session output
  | .drawConsole => .ok { session with console := drawConsole session.console }

/-- What keys leave of the output: the counter, and the text or nothing. -/
structure KeepsOutput (before after : Console) : Prop where
  counter : after.outputLen = before.outputLen
  text : after.outputBuf = before.outputBuf ∨ after.outputBuf = emptyOutput

theorem KeepsOutput.refl (console : Console) : KeepsOutput console console := ⟨rfl, .inl rfl⟩

theorem KeepsOutput.trans {first second third : Console} (before : KeepsOutput first second)
    (after : KeepsOutput second third) : KeepsOutput first third := by
  refine ⟨after.counter.trans before.counter, ?_⟩
  rcases after.text with same | empty
  · rw [same]
    exact before.text
  · exact .inr empty

/-- A frame of keys succeeds, keeps the cursor in the line and handles the output so. -/
def Typed (before : Session K) (result : Except Fault (Session K)) : Prop :=
  ∃ after, result = .ok after ∧ after.console.cmdPos ≤ 255 ∧ KeepsOutput before.console after.console

section
variable {session : Session K} (cursor : session.console.cmdPos ≤ 255)
include cursor

theorem storeChar_typed (key : Int) (room : session.console.cmdPos < 255) : Typed session (storeChar session key) := by
  obtain ⟨command, stored, -⟩ := store_of_lt session.console.command (by omega : session.console.cmdPos < 256)
    (UInt8.ofNat key.toNat)
  exact ⟨_, bind_ok_iff.mpr ⟨command, stored, rfl⟩, room, rfl, .inl rfl⟩

theorem charStep_typed [Scalar K] (levelName : Bytes) (input : ConsoleInput K) :
    Typed session (charStep session levelName input) := by
  unfold charStep
  split
  · rename_i accepts
    exact storeChar_typed cursor input.charPressed accepts.2.1
  · split
    · refine ⟨_, rfl, ?_⟩
      rw [openingStep_console]
      exact ⟨cursor, rfl, .inr rfl⟩
    · exact ⟨session, rfl, cursor, KeepsOutput.refl _⟩

theorem f4Step_typed : Typed session (f4Step session) := by
  obtain ⟨command, stored, -⟩ := store_of_lt session.console.command (by decide : 0 < 256) 0
  exact ⟨_, bind_ok_iff.mpr ⟨command, stored, rfl⟩, cursor, rfl, .inl rfl⟩

theorem enterStep_typed : Typed session (enterStep session) := by
  have inside : session.console.cmdPos < 256 := by omega
  obtain ⟨command, stored, content⟩ := store_of_lt session.console.command inside 0
  have terminated : 0 ∈ command.val := by
    rw [content]
    exact List.mem_set (by rw [session.console.command.property]; exact inside) 0
  refine ⟨_, bind_ok_iff.mpr ⟨command, stored, bind_ok_iff.mpr ⟨_, dif_pos terminated, rfl⟩⟩, Nat.zero_le 255, ?_,
    .inr rfl⟩
  dsimp only
  split <;> rfl

theorem backspaceStep_typed : Typed session (backspaceStep session) := by
  unfold backspaceStep
  split
  · obtain ⟨command, stored, -⟩ :=
      store_of_lt session.console.command (by omega : session.console.cmdPos - 1 < 256) 0
    exact ⟨_, bind_ok_iff.mpr ⟨command, stored, rfl⟩, (Nat.sub_le ..).trans cursor, rfl, .inl rfl⟩
  · exact ⟨session, rfl, cursor, KeepsOutput.refl _⟩

end

theorem Typed.next {first second : Session K} {result : Except Fault (Session K)}
    (before : KeepsOutput first.console second.console) (typed : Typed second result) : Typed first result := by
  obtain ⟨after, same, cursor, output⟩ := typed
  exact ⟨after, same, cursor, before.trans output⟩

theorem onKey_typed {branch : Session K → Except Fault (Session K)} {session : Session K} (pressed : Bool)
    (cursor : session.console.cmdPos ≤ 255) (typed : Typed session (branch session)) :
    Typed session (onKey pressed branch session) := by
  unfold onKey
  split
  · exact typed
  · exact ⟨session, rfl, cursor, KeepsOutput.refl _⟩

theorem updateInput_typed [Scalar K] {session : Session K} (cursor : session.console.cmdPos ≤ 255)
    (levelName : Bytes) (input : ConsoleInput K) : Typed session (updateInput session levelName input) := by
  obtain ⟨opened, typed, cursorOpened, outputOpened⟩ := charStep_typed cursor levelName input
  by_cases f4 : input.f4
  · rw [updateInput_f4 typed f4]
    exact (f4Step_typed cursorOpened).next outputOpened
  · obtain ⟨entered, enter, cursorEntered, outputEntered⟩ :=
      onKey_typed input.enter cursorOpened (enterStep_typed cursorOpened)
    rw [updateInput_keys typed f4 enter]
    exact (onKey_typed input.backspace cursorEntered (backspaceStep_typed cursorEntered)).next
      (outputOpened.trans outputEntered)

/-- The text is no longer than its counter, and the counter leaves room for a terminator. -/
structure Bounded (console : Console) : Prop where
  cursor : console.cmdPos ≤ 255
  text : console.outputBuf.val.length ≤ console.outputLen
  room : console.outputLen ≤ bufsiz - 2

theorem Bounded.keeps {before after : Console} (bounded : Bounded before) (cursor : after.cmdPos ≤ 255)
    (output : KeepsOutput before after) : Bounded after := by
  refine ⟨cursor, ?_, output.counter ▸ bounded.room⟩
  rw [output.counter]
  rcases output.text with same | empty
  · exact same ▸ bounded.text
  · exact empty ▸ Nat.zero_le _

theorem appendText_of_fits {console : Console} (bounded : Bounded console) {cleaned : Bytes}
    (fits : console.outputLen + cleaned.length < bufsiz - 1) :
    ∃ after, appendText console cleaned = .ok after ∧ Bounded after ∧
      after.outputBuf.val = console.outputBuf.val ++ cleaned ∧ after.outputLen = console.outputLen + cleaned.length := by
  have text := bounded.text
  have short : (console.outputBuf.val ++ cleaned).length < bufsiz := by
    rw [List.length_append]
    omega
  refine ⟨_, (if_pos fits).trans (bind_ok_iff.mpr ⟨_, strcpy_of_fits short, rfl⟩), ⟨bounded.cursor, ?_, ?_⟩, rfl, rfl⟩
  · change (console.outputBuf.val ++ cleaned).length ≤ console.outputLen + cleaned.length
    rw [List.length_append]
    omega
  · change console.outputLen + cleaned.length ≤ bufsiz - 2
    omega

theorem appendText_of_overflow {console : Console} {cleaned : Bytes}
    (overflow : ¬ console.outputLen + cleaned.length < bufsiz - 1) :
    appendText console cleaned = .ok { console with outputBuf := emptyOutput, outputLen := 0 } :=
  if_neg overflow

theorem appendText_bounded {console : Console} (bounded : Bounded console) (cleaned : Bytes) :
    ∃ after, appendText console cleaned = .ok after ∧ Bounded after := by
  by_cases fits : console.outputLen + cleaned.length < bufsiz - 1
  · obtain ⟨after, appended, kept, -⟩ := appendText_of_fits bounded fits
    exact ⟨after, appended, kept⟩
  · exact ⟨_, appendText_of_overflow fits, bounded.cursor, Nat.zero_le _, Nat.zero_le _⟩

theorem drawConsole_bounded {console : Console} (bounded : Bounded console) : Bounded (drawConsole console) := by
  unfold drawConsole
  split
  · rename_i suffix found
    refine ⟨bounded.cursor, ?_, bounded.room⟩
    have shorter := length_strstr_le found
    have text := bounded.text
    simp only [List.length_drop]
    omega
  · exact bounded

theorem freshConsole_bounded : Bounded freshConsole := ⟨Nat.zero_le _, Nat.zero_le _, Nat.zero_le _⟩

theorem callStep_bounded [Scalar K] {clean : Bytes → Except Fault Bytes} {session next : Session K}
    {call : ConsoleCall K} (bounded : Bounded session.console) (taken : callStep clean session call = .ok next) :
    Bounded next.console := by
  cases call with
  | updateInput levelName input =>
    obtain ⟨after, typed, cursor, output⟩ := updateInput_typed bounded.cursor levelName input
    cases taken.symm.trans typed
    exact bounded.keeps cursor output
  | updateConsole output =>
    cases output with
    | bytes chunk =>
      obtain ⟨cleaned, -, rest⟩ := bind_ok_iff.mp taken
      obtain ⟨console, appended, same⟩ := bind_ok_iff.mp rest
      cases same
      obtain ⟨after, appended', kept⟩ := appendText_bounded bounded cleaned
      cases appended.symm.trans appended'
      exact kept
    | wouldBlock => cases taken; exact bounded
    | failed => cases taken; exact bounded
    | closed => cases taken; exact bounded
  | drawConsole =>
    cases taken
    exact drawConsole_bounded bounded

theorem callStep_succeeds [Scalar K] (clean : Bytes → Bytes) {session : Session K} (bounded : Bounded session.console)
    (call : ConsoleCall K) : ∃ next, callStep (fun chunk => .ok (clean chunk)) session call = .ok next := by
  cases call with
  | updateInput levelName input =>
    obtain ⟨after, typed, -⟩ := updateInput_typed bounded.cursor levelName input
    exact ⟨after, typed⟩
  | updateConsole output =>
    cases output with
    | bytes chunk =>
      obtain ⟨after, appended, -⟩ := appendText_bounded bounded (clean chunk)
      exact ⟨_, bind_ok_iff.mpr ⟨clean chunk, rfl, bind_ok_iff.mpr ⟨after, appended, rfl⟩⟩⟩
    | wouldBlock => exact ⟨_, rfl⟩
    | failed => exact ⟨_, rfl⟩
    | closed => exact ⟨_, rfl⟩
  | drawConsole => exact ⟨_, rfl⟩

/-- The output never overflows: from a zeroed console all calls succeed, in any order
and number, and leave the text within its counter and the counter within the buffer. -/
theorem output_bounded [Scalar K] (clean : Bytes → Bytes) (session : Session K) (calls : List (ConsoleCall K)) :
    ∃ final, run (callStep fun chunk => .ok (clean chunk)) { session with console := freshConsole } calls =
        .ok final ∧
      final.console.outputBuf.val.length ≤ final.console.outputLen ∧ final.console.outputLen ≤ bufsiz - 2 := by
  have step (state : Session K) (call : ConsoleCall K) (bounded : Bounded state.console) :
      ∃ next, callStep (fun chunk => .ok (clean chunk)) state call = .ok next ∧ Bounded next.console := by
    obtain ⟨next, taken⟩ := callStep_succeeds clean bounded call
    exact ⟨next, taken, callStep_bounded bounded taken⟩
  have initial : Bounded ({ session with console := freshConsole } : Session K).console := freshConsole_bounded
  obtain ⟨final, reached, bounded⟩ :=
    run_completes (fun state : Session K => Bounded state.console) step initial calls
  exact ⟨final, reached, bounded.text, bounded.room⟩

/-- The calls of the program, with its own cleaning, keep the bound wherever they end. -/
theorem cleared_output_bounded [Scalar K] {session final : Session K} {calls : List (ConsoleCall K)}
    (fresh : session.console = freshConsole) (reached : run (callStep clearStr) session calls = .ok final) :
    Bounded final.console := by
  have initial : Bounded session.console := fresh ▸ freshConsole_bounded
  exact run_keeps (fun state : Session K => Bounded state.console)
    (fun _ _ _ bounded taken => callStep_bounded bounded taken) initial reached

/-! ## What is discarded -/

section
variable (clean : Bytes → Except Fault Bytes)

/-- The bytes appended since the start or since the output was last discarded. -/
def countAppended (appended : Nat) : ConsoleCall K → Nat
  | .updateConsole (.bytes chunk) =>
    match clean chunk with
    | .ok cleaned => if appended + cleaned.length < bufsiz - 1 then appended + cleaned.length else 0
    | .error _ => appended
  | _ => appended

def appendedSince (calls : List (ConsoleCall K)) : Nat := calls.foldl (countAppended clean) 0

/-- In the run a chunk arrives that fits behind the text. -/
structure Arrives [Scalar K] (session : Session K) (calls front : List (ConsoleCall K)) (chunk cleaned : Bytes)
    (before : Session K) : Prop where
  position : ∃ back, calls = front ++ .updateConsole (.bytes chunk) :: back
  reached : run (callStep clean) session front = .ok before
  cleans : clean chunk = .ok cleaned
  fits : before.console.outputBuf.val.length + cleaned.length < bufsiz - 1

/-- Every chunk that fits is appended as a whole, behind all that was shown. -/
def KeepsFitting [Scalar K] (session : Session K) (calls : List (ConsoleCall K)) : Prop :=
  ∀ front chunk cleaned before, Arrives clean session calls front chunk cleaned before →
    ∃ after, updateConsoleWith clean before (.bytes chunk) = .ok after ∧
      after.console.outputBuf.val = before.console.outputBuf.val ++ cleaned

/-- Every chunk that fits behind the text also fits behind all that was appended since
the last discard, shown or not. -/
def FitsBehindAll [Scalar K] (session : Session K) (calls : List (ConsoleCall K)) : Prop :=
  ∀ front chunk cleaned before, Arrives clean session calls front chunk cleaned before →
    appendedSince clean front + cleaned.length < bufsiz - 1

end

section
variable {clean : Bytes → Except Fault Bytes}

theorem updateConsoleWith_ok_iff {session next : Session K} {chunk cleaned : Bytes}
    (cleans : clean chunk = .ok cleaned) : updateConsoleWith clean session (.bytes chunk) = .ok next ↔
      ∃ console, appendText session.console cleaned = .ok console ∧ next = { session with console } := by
  rw [updateConsoleWith, cleans]
  change (appendText session.console cleaned >>= fun console => _) = .ok next ↔ _
  simp only [bind_ok_iff]
  refine exists_congr fun console => and_congr_right fun _ => ?_
  exact ⟨fun same => (Except.ok.inj same).symm, fun same => congrArg Except.ok same.symm⟩

theorem callStep_counter [Scalar K] {session next : Session K} {call : ConsoleCall K}
    (bounded : Bounded session.console) (taken : callStep clean session call = .ok next) :
    next.console.outputLen = countAppended clean session.console.outputLen call := by
  cases call with
  | updateInput levelName input =>
    obtain ⟨after, typed, -, output⟩ := updateInput_typed bounded.cursor levelName input
    cases taken.symm.trans typed
    exact output.counter
  | updateConsole output =>
    cases output with
    | bytes chunk =>
      obtain ⟨cleaned, cleans, -⟩ := bind_ok_iff.mp taken
      obtain ⟨console, appended, rfl⟩ := (updateConsoleWith_ok_iff cleans).mp taken
      simp only [countAppended, cleans]
      by_cases fits : session.console.outputLen + cleaned.length < bufsiz - 1
      · obtain ⟨after, appended', -, -, counter⟩ := appendText_of_fits bounded fits
        cases appended.symm.trans appended'
        rw [if_pos fits, counter]
      · cases appended.symm.trans (appendText_of_overflow fits)
        rw [if_neg fits]
    | wouldBlock => cases taken; rfl
    | failed => cases taken; rfl
    | closed => cases taken; rfl
  | drawConsole =>
    cases taken
    unfold drawConsole
    dsimp only
    split <;> rfl

/-- The counter holds what was appended since the last discard. -/
theorem run_counter [Scalar K] {session final : Session K} {calls : List (ConsoleCall K)}
    (bounded : Bounded session.console) (reached : run (callStep clean) session calls = .ok final) :
    Bounded final.console ∧ final.console.outputLen = calls.foldl (countAppended clean) session.console.outputLen := by
  induction calls generalizing session with
  | nil =>
    cases reached
    exact ⟨bounded, rfl⟩
  | cons call rest ih =>
    obtain ⟨next, taken, remaining⟩ := run_cons_ok_iff.mp reached
    obtain ⟨kept, counter⟩ := ih (callStep_bounded bounded taken) remaining
    exact ⟨kept, by rw [counter, callStep_counter bounded taken, List.foldl_cons]⟩

end

/-- From a zeroed console, every chunk that fits is kept exactly when each of them fits
behind all that was appended since the last discard. What cleans the chunks may be any
function, also one that stops at some of them as `clear_str` does. -/
theorem fittingOutput_kept_iff [Scalar K] (clean : Bytes → Except Fault Bytes) (session : Session K)
    (calls : List (ConsoleCall K)) : KeepsFitting clean { session with console := freshConsole } calls ↔
      FitsBehindAll clean { session with console := freshConsole } calls := by
  refine forall₄_congr fun front chunk cleaned before => forall_congr' fun arrives => ?_
  obtain ⟨bounded, counter⟩ := run_counter freshConsole_bounded arrives.reached
  change before.console.outputLen = appendedSince clean front at counter
  rw [← counter]
  constructor
  · rintro ⟨after, taken, kept⟩
    by_contra overflow
    obtain ⟨console, appended, rfl⟩ := (updateConsoleWith_ok_iff arrives.cleans).mp taken
    cases appended.symm.trans (appendText_of_overflow overflow)
    -- The text is gone, so nothing was shown and nothing arrived; but nothing always fits.
    have nothing : before.console.outputBuf.val ++ cleaned = [] := kept.symm
    have room := bounded.room
    rw [(List.append_eq_nil_iff.mp nothing).2, bufsiz] at overflow
    rw [bufsiz] at room
    simp only [List.length_nil] at overflow
    omega
  · intro fits
    obtain ⟨after, appended, -, text, -⟩ := appendText_of_fits bounded fits
    exact ⟨_, (updateConsoleWith_ok_iff arrives.cleans).mpr ⟨after, appended, rfl⟩, text⟩

/-! ## A chunk that fits and is lost -/

def longChunk : Bytes := List.replicate 1023 97

theorem clearStr_longChunk : clearStr longChunk = .ok longChunk := by
  have letters : ∀ byte ∈ longChunk, byte = 97 := fun byte member => (List.mem_replicate.mp member).2
  have seamless : Seamless longChunk := by
    refine ⟨fun byte member => letters byte member ▸ (by decide), ?_⟩
    exact List.pairwise_of_forall_mem_list fun first member _ _ marker =>
      absurd (letters first member ▸ marker) (by decide)
  rw [clearStr_of_seamless seamless fun zero => absurd (letters 0 zero) (by decide)]
  refine congrArg Except.ok (List.filter_eq_self.mpr fun byte member => ?_)
  rw [letters byte member]
  decide

def readLong : ConsoleCall Rat := .updateConsole (.bytes longChunk)

def pressEnter : ConsoleCall Rat := .updateInput (text "Level") ⟨0, false, true, false, 0⟩

theorem length_longChunk : longChunk.length = 1023 := List.length_replicate

theorem readLong_of_fits {session : Session Rat} (bounded : Bounded session.console)
    (fits : session.console.outputLen + 1023 < bufsiz - 1) :
    ∃ next, callStep clearStr session readLong = .ok next ∧ Bounded next.console ∧
      next.console.outputLen = session.console.outputLen + 1023 := by
  obtain ⟨console, appended, kept, -, counter⟩ := appendText_of_fits bounded (length_longChunk ▸ fits)
  refine ⟨{ session with console }, ?_, kept, length_longChunk ▸ counter⟩
  exact (updateConsoleWith_ok_iff clearStr_longChunk).mpr ⟨console, appended, rfl⟩

theorem run_readLong {session : Session Rat} (bounded : Bounded session.console) (count : Nat)
    (room : session.console.outputLen + 1023 * count < bufsiz - 1) :
    ∃ final, run (callStep clearStr) session (List.replicate count readLong) = .ok final ∧
      Bounded final.console ∧ final.console.outputLen = session.console.outputLen + 1023 * count := by
  induction count generalizing session with
  | zero => exact ⟨session, rfl, bounded, rfl⟩
  | succ count ih =>
    rw [Nat.mul_succ] at room ⊢
    obtain ⟨next, taken, kept, counter⟩ := readLong_of_fits bounded (Nat.lt_of_le_of_lt (by omega) room)
    obtain ⟨final, reached, bound, total⟩ := ih kept (Nat.lt_of_le_of_lt (by omega) room)
    exact ⟨final, run_cons_ok_iff.mpr ⟨next, taken, reached⟩, bound, by omega⟩

theorem pressEnter_clears {session : Session Rat} (bounded : Bounded session.console) :
    ∃ next, callStep clearStr session pressEnter = .ok next ∧ next.console.outputBuf.val = [] ∧
      next.console.outputLen = session.console.outputLen := by
  obtain ⟨opened, typed, cursor, kept⟩ := charStep_typed bounded.cursor (text "Level") ⟨0, false, true, false, 0⟩
  obtain ⟨entered, enter, -, output⟩ := enterStep_typed cursor
  refine ⟨entered, updateInput_keys typed (by decide) enter, ?_, output.counter.trans kept.counter⟩
  obtain ⟨command, _, rest⟩ := bind_ok_iff.mp enter
  obtain ⟨line, _, same⟩ := bind_ok_iff.mp rest
  cases same
  rfl

/-- Eight long chunks, Enter, and another: the text was cleared and the counter was not,
so the last chunk is lost. -/
theorem readAfterEnter_not_kept : ¬ KeepsFitting clearStr { freshSession with console := freshConsole }
    (List.replicate 8 readLong ++ pressEnter :: [readLong]) := by
  intro keeps
  have start : Bounded ({ freshSession with console := freshConsole } : Session Rat).console := freshConsole_bounded
  obtain ⟨full, reached, bounded, counter⟩ := run_readLong start 8 (by decide)
  obtain ⟨entered, taken, cleared, kept⟩ := pressEnter_clears bounded
  have counted : entered.console.outputLen = 8184 := kept.trans counter
  obtain ⟨after, read, shown⟩ := keeps (List.replicate 8 readLong ++ [pressEnter]) longChunk longChunk entered
    ⟨⟨[], by simp [readLong]⟩, run_concat_of_ok reached taken, clearStr_longChunk, by
      rw [cleared, length_longChunk]
      decide⟩
  obtain ⟨console, appended, rfl⟩ := (updateConsoleWith_ok_iff clearStr_longChunk).mp read
  have overflow : ¬ entered.console.outputLen + longChunk.length < bufsiz - 1 := by
    rw [counted, length_longChunk]
    decide
  cases appended.symm.trans (appendText_of_overflow overflow)
  have lengths := congrArg List.length shown
  rw [cleared, List.nil_append, length_longChunk] at lengths
  cases lengths

end Trigger.Terminal
