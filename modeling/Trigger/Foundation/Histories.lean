import Trigger.Foundation.Runs

/-! Runs that are written down.

A record is kept beside a run: every step notes what it wants to remember of its state
and its input. What a step keeps of the state and its record holds wherever the run leads.
-/

set_option autoImplicit false

namespace Trigger.Foundation

variable {State Input Record Fault : Type}

theorem along_of_mem {step : State → Input → Except Fault State} {good : State → Input → Prop} {inputs : List Input}
    (each : ∀ input ∈ inputs, ∀ state, good state input) (state : State) : Along step good state inputs :=
  along_iff_forall.mpr fun _ input _ middle whole _ => each input (by simp [whole]) middle

def recorded (step : State → Input → Except Fault State) (note : State → Input → Record → Record) :
    State → Record → List Input → Record
  | _, record, [] => record
  | state, record, input :: rest =>
    match step state input with
    | .ok next => recorded step note next (note state input record) rest
    | .error _ => record

variable {step : State → Input → Except Fault State} {note : State → Input → Record → Record}

theorem recorded_cons_of_ok {state next : State} {input : Input} (taken : step state input = .ok next)
    (record : Record) (rest : List Input) :
    recorded step note state record (input :: rest) = recorded step note next (note state input record) rest := by
  rw [recorded, taken]

/-- The run rule for a state beside its record and the inputs that led there. -/
theorem history_invariant {invariant : List Input → State → Record → Prop} {good : State → Input → Prop}
    (kept : ∀ front state record input next, invariant front state record → good state input →
      step state input = .ok next → invariant (front ++ [input]) next (note state input record))
    {state final : State} {record : Record} {inputs : List Input} (initial : invariant [] state record)
    (along : Along step good state inputs) (reached : run step state inputs = .ok final) :
    invariant inputs final (recorded step note state record inputs) := by
  have later (front : List Input) (state : State) (record : Record) (inputs : List Input)
      (holds : invariant front state record) (along : Along step good state inputs)
      (reached : run step state inputs = .ok final) :
      invariant (front ++ inputs) final (recorded step note state record inputs) := by
    induction inputs generalizing front state record with
    | nil =>
      cases reached
      rwa [List.append_nil]
    | cons input rest ih =>
      obtain ⟨next, taken, remaining⟩ := run_cons_ok_iff.mp reached
      rw [recorded_cons_of_ok taken, List.append_cons]
      exact ih _ next _ (kept front state record input next holds along.1 taken) (along.2 next taken) remaining
  exact later [] state record inputs initial along reached

/-- The run rule for a state beside its record. -/
theorem recorded_invariant {invariant : State → Record → Prop} {good : State → Input → Prop}
    (kept : ∀ state record input next, invariant state record → good state input → step state input = .ok next →
      invariant next (note state input record))
    {state final : State} {record : Record} {inputs : List Input} (initial : invariant state record)
    (along : Along step good state inputs) (reached : run step state inputs = .ok final) :
    invariant final (recorded step note state record inputs) := by
  have each (_ : List Input) (state : State) (record : Record) (input : Input) (next : State)
      (holds : invariant state record) (meets : good state input) (taken : step state input = .ok next) :
      invariant next (note state input record) := kept state record input next holds meets taken
  exact @history_invariant State Input Record Fault step note (fun _ => invariant) good each _ _ _ _ initial along reached

end Trigger.Foundation
