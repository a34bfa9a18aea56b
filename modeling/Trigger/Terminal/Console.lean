import Trigger.Foundation.Scalar
import Trigger.Terminal.Cleaning

/-! The console: its line editor, the output it shows, and the pipes to the
emulator.
-/

set_option autoImplicit false

namespace Trigger.Terminal
open Foundation

/-- `BUFSIZ` of the C library. -/
def bufsiz : Nat := 8192

structure Console where
  command : Buffer 256
  cmdPos : Nat
  lastCommand : CharArray 256
  outputBuf : CharArray bufsiz
  outputLen : Nat

def emptyOutput : CharArray bufsiz := CharArray.empty (by decide)

/-- A call `write(pipe_to, buf, count)`; the count of a literal may pass its terminator. -/
structure PipeWrite where
  buf : Bytes
  count : Nat
  deriving DecidableEq, Repr

def literal (content : String) (count : Nat) : PipeWrite := ⟨text content ++ [0], count⟩

/-- The console of the engine, the variables of the console module and `temu_run`;
`pipe` collects the writes to the emulator. -/
structure Session (K : Type) where
  console : Console
  justOpened : Bool
  startTickCount : Int
  waitParameter : K
  temuRun : Bool
  pipe : List PipeWrite

/-- What `update_input` asks raylib for; `charPressed` is zero when no key was typed. -/
structure ConsoleInput (K : Type) where
  charPressed : Int
  f4 : Bool
  enter : Bool
  backspace : Bool
  frameTime : K

variable {K : Type}

/-- The console after the engine cleared its memory. -/
def freshConsole : Console := ⟨Buffer.zero 256, 0, CharArray.empty room256, emptyOutput, 0⟩

def freshSession : Session Rat := ⟨freshConsole, true, 0, 0, true, []⟩

def Session.write (session : Session K) (writes : List PipeWrite) : Session K :=
  { session with pipe := session.pipe ++ writes }

/-! ## update_input -/

def maxStartTicks : Int := 4

/-- A typed key goes to the line. -/
def Accepts (session : Session K) (input : ConsoleInput K) : Prop :=
  input.charPressed > 0 ∧ session.console.cmdPos < 255 ∧ session.justOpened = false

/-- The opening steps run. -/
def Opens (session : Session K) (input : ConsoleInput K) : Prop :=
  input.charPressed > 0 ∧ session.console.cmdPos < 255 ∨
    0 < session.startTickCount ∧ session.startTickCount < maxStartTicks

instance (session : Session K) (input : ConsoleInput K) : Decidable (Accepts session input) :=
  inferInstanceAs (Decidable (_ ∧ _))

instance (session : Session K) (input : ConsoleInput K) : Decidable (Opens session input) :=
  inferInstanceAs (Decidable (_ ∨ _))

def storeChar (session : Session K) (key : Int) : Except Fault (Session K) := do
  let command ← session.console.command.store session.console.cmdPos (UInt8.ofNat key.toNat)
  return { session with
    console := { session.console with command, cmdPos := session.console.cmdPos + 1 } }

/-- A step of the tutorial that waits for more than a second before its write. -/
def waitStep [Scalar K] (session : Session K) (frameTime : K) (command : PipeWrite) : Session K :=
  let session :=
    if Scalar.ofRat 1 < session.waitParameter then
      { session with
        waitParameter := Scalar.ofRat 0
        startTickCount := session.startTickCount + 1
        pipe := session.pipe ++ [command] }
    else session
  { session with waitParameter := session.waitParameter + frameTime }

def welcome : PipeWrite := literal
  "echo \"Welcome to console, stranger. Now you need to create file \n\\\"file_to_create\\\" \nCommand \\\"touch\\\" can help with it. Usage: touch <filename>\"" 145

def lineFeed : PipeWrite := literal "\n" 1

def openingStep [Scalar K] (session : Session K) (levelName : Bytes) (frameTime : K) : Session K :=
  let session := { session with console := { session.console with outputBuf := emptyOutput } }
  if levelName = text "Обучение" then
    match session.startTickCount with
    | 1 => waitStep session frameTime (literal "cd root\n" 9)
    | 2 => waitStep session frameTime (literal "client &\n" 10)
    | 3 =>
      { session.write [welcome, lineFeed] with
        startTickCount := session.startTickCount + 2
        justOpened := false }
    | 0 => { session with startTickCount := session.startTickCount + 1 }
    | _ => session
  else if levelName = text "Уровень 2" then session.write [literal "echo \"AAAA\n\"" 170, lineFeed]
  else session

def charStep [Scalar K] (session : Session K) (levelName : Bytes) (input : ConsoleInput K) :
    Except Fault (Session K) :=
  if Accepts session input then storeChar session input.charPressed
  else if Opens session input then .ok (openingStep session levelName input.frameTime)
  else .ok session

/-- Both ways out of the console leave it to be opened anew. -/
def Session.close (session : Session K) : Session K :=
  { session with temuRun := false, justOpened := true, startTickCount := 0 }

def f4Step (session : Session K) : Except Fault (Session K) := do
  -- `cmd_pos` keeps its value.
  let command ← session.console.command.store 0 0
  return { session.close with console := { session.console with command } }

def enterStep (session : Session K) : Except Fault (Session K) := do
  -- The line is terminated at the cursor, and its bytes up to there are sent.
  let command ← session.console.command.store session.console.cmdPos 0
  let line ← command.string
  let session := if line.val = text "exit" then session.close else session
  let sent : PipeWrite := ⟨command.val, session.console.cmdPos⟩
  return { session.write [sent, lineFeed] with
    console := { session.console with
      command := Buffer.zero 256, cmdPos := 0, lastCommand := line, outputBuf := emptyOutput } }

def backspaceStep (session : Session K) : Except Fault (Session K) :=
  if session.console.cmdPos > 0 then do
    let command ← session.console.command.store (session.console.cmdPos - 1) 0
    return { session with
      console := { session.console with command, cmdPos := session.console.cmdPos - 1 } }
  else .ok session

/-- A branch `if (IsKeyPressed(key))`. -/
def onKey (pressed : Bool) (branch : Session K → Except Fault (Session K)) (session : Session K) :
    Except Fault (Session K) :=
  if pressed then branch session else .ok session

def updateInput [Scalar K] (session : Session K) (levelName : Bytes) (input : ConsoleInput K) :
    Except Fault (Session K) := do
  let session ← charStep session levelName input
  -- F4 returns, so Enter and Backspace are not looked at in its frame.
  if input.f4 then f4Step session
  else
    let session ← onKey input.enter enterStep session
    onKey input.backspace backspaceStep session

/-! ## engine_update_console -/

/-- The outcome of `read` from the emulator; a chunk has at most 1023 bytes. -/
inductive ReadResult where
  | bytes (chunk : Bytes)
  | wouldBlock
  | failed
  | closed

def strcat {size : Nat} (target : CharArray size) (source : Bytes) : Except Fault (CharArray size) :=
  strcpy (target.val ++ source)

def appendOutput (console : Console) (chunk : Bytes) : Except Fault Console := do
  let cleaned ← clearStr chunk
  if console.outputLen + cleaned.length < bufsiz - 1 then
    let outputBuf ← strcat console.outputBuf cleaned
    return { console with outputBuf, outputLen := console.outputLen + cleaned.length }
  -- A chunk that does not fit clears the whole output and is lost.
  else return { console with outputBuf := emptyOutput, outputLen := 0 }

def engineUpdateConsole (session : Session K) : ReadResult → Except Fault (Session K)
  | .bytes chunk => do return { session with console := ← appendOutput session.console chunk }
  | .wouldBlock => .ok session
  | .failed => .ok { session with temuRun := false }
  | .closed => .ok { session with temuRun := false }

/-! ## draw_console -/

/-- The string from the first occurrence on. -/
def strstr (needle : Bytes) : Bytes → Option Bytes
  | [] => if needle = [] then some [] else none
  | head :: rest => if needle <+: head :: rest then some (head :: rest) else strstr needle rest

theorem length_strstr_le {needle source suffix : Bytes} (found : strstr needle source = some suffix) :
    suffix.length ≤ source.length := by
  induction source with
  | nil =>
    rw [strstr] at found
    split at found <;> simp_all
  | cons head rest ih =>
    rw [strstr] at found
    split at found
    · cases found
      exact Nat.le_refl _
    · exact Nat.le_succ_of_le (ih found)

/-- The echo of the last command is removed; the overlapping `strcpy` shifts to the left. -/
def drawConsole (console : Console) : Console :=
  match found : strstr console.lastCommand.val console.outputBuf.val with
  | some suffix =>
    { console with outputBuf := ⟨suffix.drop console.lastCommand.val.length, by
        have shorter := length_strstr_le found
        have fits := console.outputBuf.property
        simp only [List.length_drop]
        omega⟩ }
  | none => console

end Trigger.Terminal
