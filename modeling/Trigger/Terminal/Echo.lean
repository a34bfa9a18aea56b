import Trigger.Terminal.Console
import Mathlib.Logic.Function.Iterate

/-! The echo of the last command, which every drawing of the console removes again. -/

set_option autoImplicit false

namespace Trigger.Terminal
open Foundation

section
variable {needle source : Bytes}

theorem strstr_eq_none_iff : strstr needle source = none ↔ ¬ needle <:+: source := by
  induction source with
  | nil =>
    rw [strstr, List.infix_nil]
    split <;> simp_all
  | cons head rest ih =>
    rw [strstr, List.infix_cons_iff, not_or]
    split
    · rename_i starts
      exact iff_of_false (Option.some_ne_none _) fun neither => neither.1 starts
    · rename_i other
      rw [ih, and_iff_right other]

theorem strstr_eq_some {suffix : Bytes} (found : strstr needle source = some suffix) :
    ∃ front back, source = front ++ (needle ++ back) ∧ suffix = needle ++ back ∧
      ∀ before after, source = before ++ (needle ++ after) → front.length ≤ before.length := by
  induction source with
  | nil =>
    rw [strstr] at found
    split at found
    · rename_i empty
      cases found
      exact ⟨[], [], by rw [empty]; rfl, by rw [empty]; rfl, fun _ _ _ => Nat.zero_le _⟩
    · cases found
  | cons head rest ih =>
    rw [strstr] at found
    split at found
    · rename_i starts
      cases found
      obtain ⟨back, same⟩ := starts
      exact ⟨[], back, same.symm, same.symm, fun _ _ _ => Nat.zero_le _⟩
    · rename_i other
      obtain ⟨front, back, same, whole, first⟩ := ih found
      refine ⟨head :: front, back, by rw [same]; rfl, whole, fun before after occurs => ?_⟩
      cases before with
      | nil => exact absurd ⟨after, occurs.symm⟩ other
      | cons byte before => exact Nat.succ_le_succ (first before after (List.cons.inj occurs).2)

end

variable {console : Console}

theorem drawConsole_lastCommand (console : Console) : (drawConsole console).lastCommand = console.lastCommand := by
  unfold drawConsole
  split <;> rfl

theorem drawConsole_of_absent (absent : ¬ console.lastCommand.val <:+: console.outputBuf.val) :
    drawConsole console = console := by
  unfold drawConsole
  split
  · rename_i suffix found
    cases (strstr_eq_none_iff.mpr absent).symm.trans found
  · rfl

theorem drawConsole_of_present (present : console.lastCommand.val <:+: console.outputBuf.val) :
    ∃ front, console.outputBuf.val = front ++ (console.lastCommand.val ++ (drawConsole console).outputBuf.val) ∧
      ∀ before after, console.outputBuf.val = before ++ (console.lastCommand.val ++ after) →
        front.length ≤ before.length := by
  unfold drawConsole
  split
  · rename_i suffix found
    obtain ⟨front, back, whole, rfl, first⟩ := strstr_eq_some found
    refine ⟨front, ?_, first⟩
    change console.outputBuf.val =
      front ++ (console.lastCommand.val ++ (console.lastCommand.val ++ back).drop console.lastCommand.val.length)
    rw [List.drop_left]
    exact whole
  · rename_i missing
    exact absurd present (strstr_eq_none_iff.mp missing)

theorem drawConsole_eq_iff (nonempty : console.lastCommand.val ≠ []) :
    drawConsole console = console ↔ ¬ console.lastCommand.val <:+: console.outputBuf.val := by
  constructor
  · intro same present
    obtain ⟨front, whole, -⟩ := drawConsole_of_present present
    rw [same] at whole
    have length := congrArg List.length whole
    have positive := List.length_pos_of_ne_nil nonempty
    simp only [List.length_append] at length
    omega
  · exact drawConsole_of_absent

/-- Behind the first drawing no other one changes the console. -/
def DrawsSteadily (console : Console) : Prop :=
  ∀ draws, Nat.iterate drawConsole draws (drawConsole console) = drawConsole console

/-- The output has the last command twice, the second one behind the first. -/
def RepeatsCommand (console : Console) : Prop :=
  ∃ front middle back, console.outputBuf.val =
    front ++ (console.lastCommand.val ++ (middle ++ (console.lastCommand.val ++ back)))

theorem drawsSteadily_iff_once : DrawsSteadily console ↔ drawConsole (drawConsole console) = drawConsole console :=
  ⟨fun steady => steady 1, fun once draws => Function.iterate_fixed once draws⟩

/-- What is behind the first occurrence has another one exactly when there are two apart. -/
theorem repeatsCommand_iff : RepeatsCommand console ↔ console.lastCommand.val <:+: console.outputBuf.val ∧
    console.lastCommand.val <:+: (drawConsole console).outputBuf.val := by
  constructor
  · rintro ⟨front, middle, back, twice⟩
    have present : console.lastCommand.val <:+: console.outputBuf.val :=
      ⟨front, _, by rw [twice, List.append_assoc]⟩
    obtain ⟨before, whole, first⟩ := drawConsole_of_present present
    refine ⟨present, ?_⟩
    have earlier := first front _ twice
    -- The first occurrence ends before the second of the two begins.
    have rest : (drawConsole console).outputBuf.val =
        console.outputBuf.val.drop (before ++ console.lastCommand.val).length := by
      rw [whole, ← List.append_assoc, List.drop_left]
    have inFront : (before ++ console.lastCommand.val).length ≤ (front ++ console.lastCommand.val).length := by
      simp only [List.length_append]
      omega
    rw [rest, twice, ← List.append_assoc, List.drop_append_of_le_length inFront]
    exact ⟨(front ++ console.lastCommand.val).drop (before ++ console.lastCommand.val).length ++ middle, back, by
      simp only [List.append_assoc]⟩
  · rintro ⟨present, middle, back, again⟩
    obtain ⟨front, whole, -⟩ := drawConsole_of_present present
    exact ⟨front, middle, back, by rw [whole, ← again, List.append_assoc]⟩

/-- Drawing eats no output exactly where the last command is not there twice. -/
theorem drawsSteadily_iff (console : Console) (nonempty : console.lastCommand.val ≠ []) :
    DrawsSteadily console ↔ ¬ RepeatsCommand console := by
  rw [drawsSteadily_iff_once, drawConsole_eq_iff (by rw [drawConsole_lastCommand]; exact nonempty),
    drawConsole_lastCommand, repeatsCommand_iff, not_and]
  constructor
  · exact fun absent _ => absent
  · intro absent again
    by_cases present : console.lastCommand.val <:+: console.outputBuf.val
    · exact absent present again
    · rw [drawConsole_of_absent present] at again
      exact present again

theorem roomBufsiz : 0 < bufsiz := by decide

def listedTools : Console :=
  { freshConsole with
    lastCommand := truncated 256 room256 (text "ls")
    outputBuf := truncated bufsiz roomBufsiz (text "ls\ntools") }

theorem listedTools_drawsSteadily_iff : DrawsSteadily listedTools ↔ ¬ RepeatsCommand listedTools :=
  drawsSteadily_iff listedTools (by decide)

/-- The second drawing takes the end of `tools` for an echo. -/
theorem listedTools_not_drawsSteadily :
    (drawConsole listedTools).outputBuf.val = text "\ntools" ∧
      (drawConsole (drawConsole listedTools)).outputBuf.val = [] ∧ ¬ DrawsSteadily listedTools := by
  have first : (drawConsole listedTools).outputBuf.val = text "\ntools" := by decide +kernel
  have second : (drawConsole (drawConsole listedTools)).outputBuf.val = [] := by decide +kernel
  refine ⟨first, second, fun steady => ?_⟩
  have same := congrArg (fun console : Console => console.outputBuf.val) (steady 1)
  cases first.symm.trans (same.symm.trans second)

end Trigger.Terminal
