import Mathlib.Data.List.Basic
import Mathlib.Logic.Relation

/-! Runs of a machine whose steps may fault.

An input list drives the machine from left to right. A side condition on the
steps is read along the run: it is asked of every state in which a step is
taken. Invariants are established once for a step and hold in every run.
-/

set_option autoImplicit false

namespace Trigger.Foundation

variable {State Input Fault : Type}

/-- Run a list of inputs, stopping at the first fault. -/
def run (step : State → Input → Except Fault State) : State → List Input → Except Fault State
  | state, [] => .ok state
  | state, input :: rest =>
    match step state input with
    | .ok next => run step next rest
    | .error fault => .error fault

/-- Every step taken by the run is taken in a state and on an input that meet `good`. -/
def Along (step : State → Input → Except Fault State) (good : State → Input → Prop) :
    State → List Input → Prop
  | _, [] => True
  | state, input :: rest =>
    good state input ∧ ∀ next, step state input = .ok next → Along step good next rest

instance decidableAlong (step : State → Input → Except Fault State) (good : State → Input → Prop)
    [∀ state input, Decidable (good state input)] : ∀ state inputs, Decidable (Along step good state inputs)
  | _, [] => isTrue trivial
  | state, input :: rest =>
    match taken : step state input with
    | .ok next =>
      have := decidableAlong step good next rest
      decidable_of_iff (good state input ∧ Along step good next rest) (by simp [Along, taken])
    | .error _ => decidable_of_iff (good state input) (by simp [Along, taken])

variable {step : State → Input → Except Fault State} {good : State → Input → Prop}

@[simp] theorem run_nil (state : State) : run step state [] = .ok state := rfl

theorem run_cons_of_ok {state next : State} {input : Input} (taken : step state input = .ok next)
    (rest : List Input) : run step state (input :: rest) = run step next rest := by
  simp [run, taken]

theorem run_cons_ok_iff {state final : State} {input : Input} {rest : List Input} :
    run step state (input :: rest) = .ok final ↔
      ∃ next, step state input = .ok next ∧ run step next rest = .ok final := by
  rw [run]
  cases step state input with
  | ok next => simp
  | error fault => simp

theorem run_append (front back : List Input) (state : State) :
    run step state (front ++ back) = run step state front >>= fun middle => run step middle back := by
  induction front generalizing state with
  | nil => rfl
  | cons input rest ih =>
    rw [List.cons_append, run, run]
    cases step state input with
    | ok next => exact ih next
    | error fault => rfl

theorem run_concat_of_ok {state middle next : State} {inputs : List Input} {input : Input}
    (reached : run step state inputs = .ok middle) (taken : step middle input = .ok next) :
    run step state (inputs ++ [input]) = .ok next := by
  rw [run_append, reached]
  exact run_cons_of_ok taken []

/-- Single steps lead where some run leads. -/
theorem reflTransGen_iff_run {state final : State} :
    Relation.ReflTransGen (fun state next => ∃ input, step state input = .ok next) state final ↔
      ∃ inputs, run step state inputs = .ok final := by
  constructor
  · intro steps
    induction steps with
    | refl => exact ⟨[], rfl⟩
    | tail _ last ih =>
      obtain ⟨inputs, reached⟩ := ih
      obtain ⟨input, taken⟩ := last
      exact ⟨inputs ++ [input], run_concat_of_ok reached taken⟩
  · rintro ⟨inputs, reached⟩
    induction inputs generalizing state with
    | nil =>
      cases reached
      exact .refl
    | cons input rest ih =>
      obtain ⟨next, taken, remaining⟩ := run_cons_ok_iff.mp reached
      exact .head ⟨input, taken⟩ (ih remaining)

theorem run_map {Source : Type} (f : Source → Input) (inputs : List Source) (state : State) :
    run step state (inputs.map f) = run (fun state input => step state (f input)) state inputs := by
  induction inputs generalizing state with
  | nil => rfl
  | cons input rest ih =>
    rw [List.map_cons, run, run]
    cases step state (f input) with
    | ok next => exact ih next
    | error fault => rfl

theorem along_of_forall (each : ∀ state input, good state input) (state : State) (inputs : List Input) :
    Along step good state inputs := by
  induction inputs generalizing state with
  | nil => trivial
  | cons input rest ih => exact ⟨each state input, fun next _ => ih next⟩

theorem along_append {front back : List Input} {state : State} (along : Along step good state (front ++ back)) :
    Along step good state front := by
  induction front generalizing state with
  | nil => trivial
  | cons input rest ih => exact ⟨along.1, fun next taken => ih (along.2 next taken)⟩

theorem along_iff_forall {state : State} {inputs : List Input} : Along step good state inputs ↔
    ∀ front input back middle, inputs = front ++ input :: back → run step state front = .ok middle → good middle input := by
  induction inputs generalizing state with
  | nil => exact ⟨fun _ front _ _ _ same => by simp at same, fun _ => trivial⟩
  | cons input rest ih =>
    constructor
    · rintro ⟨here, later⟩ front other back middle same reached
      cases front with
      | nil =>
        cases same
        cases reached
        exact here
      | cons first front =>
        cases same
        obtain ⟨next, taken, remaining⟩ := run_cons_ok_iff.mp reached
        exact ih.mp (later next taken) front other back middle rfl remaining
    · intro each
      refine ⟨each [] input rest state rfl rfl, fun next taken => ih.mpr fun front other back middle same reached => ?_⟩
      exact each (input :: front) other back middle (by rw [same]; rfl) ((run_cons_of_ok taken front).trans reached)

/-- What holds at the start holds wherever the run leads if every step arrives where it holds. -/
theorem forall_reached_iff {holds : State → Prop} {state : State} {inputs : List Input} (initial : holds state) :
    (∀ front back final, inputs = front ++ back → run step state front = .ok final → holds final) ↔
      Along step (fun state input => ∀ next, step state input = .ok next → holds next) state inputs := by
  rw [along_iff_forall]
  constructor
  · intro each front input back middle same reached next taken
    exact each (front ++ [input]) back next (by rw [same, List.append_assoc]; rfl) (run_concat_of_ok reached taken)
  · intro each front back final same reached
    rcases List.eq_nil_or_concat' front with rfl | ⟨before, input, rfl⟩
    · cases reached
      exact initial
    · rw [run_append] at reached
      cases middle : run step state before with
      | error fault => simp [middle, bind, Except.bind] at reached
      | ok there =>
        rw [middle] at reached
        obtain ⟨next, taken, rest⟩ := run_cons_ok_iff.mp reached
        cases rest
        exact each before input back there (by rw [same, List.append_assoc]; rfl) middle final taken

theorem run_succeeds_iff {state : State} {inputs : List Input} : (∃ final, run step state inputs = .ok final) ↔
    Along step (fun state input => ∃ next, step state input = .ok next) state inputs := by
  induction inputs generalizing state with
  | nil => exact ⟨fun _ => trivial, fun _ => ⟨state, rfl⟩⟩
  | cons input rest ih =>
    constructor
    · rintro ⟨final, reached⟩
      obtain ⟨next, taken, remaining⟩ := run_cons_ok_iff.mp reached
      refine ⟨⟨next, taken⟩, fun other also => ?_⟩
      cases taken.symm.trans also
      exact ih.mp ⟨final, remaining⟩
    · rintro ⟨⟨next, taken⟩, later⟩
      rw [run_cons_of_ok taken]
      exact ih.mpr (later next taken)

theorem along_congr {other : State → Input → Prop} {invariant : State → Prop}
    (same : ∀ state input, invariant state → (good state input ↔ other state input))
    (kept : ∀ state input next, invariant state → good state input → step state input = .ok next → invariant next)
    {state : State} (initial : invariant state) (inputs : List Input) :
    Along step good state inputs ↔ Along step other state inputs := by
  induction inputs generalizing state with
  | nil => exact Iff.rfl
  | cons input rest ih =>
    constructor
    · rintro ⟨here, later⟩
      refine ⟨(same state input initial).mp here, fun next taken => ?_⟩
      exact (ih (kept state input next initial here taken)).mp (later next taken)
    · rintro ⟨here, later⟩
      have meets := (same state input initial).mpr here
      exact ⟨meets, fun next taken => (ih (kept state input next initial meets taken)).mpr (later next taken)⟩

/-- The run rule: an invariant kept by every step that meets the side condition
holds wherever a run whose steps meet it arrives. -/
theorem run_invariant {invariant : State → Prop}
    (kept : ∀ state input next, invariant state → good state input →
      step state input = .ok next → invariant next)
    {state final : State} {inputs : List Input} (initial : invariant state)
    (along : Along step good state inputs) (reached : run step state inputs = .ok final) :
    invariant final := by
  induction inputs generalizing state with
  | nil => cases reached; exact initial
  | cons input rest ih =>
    obtain ⟨next, taken, remaining⟩ := run_cons_ok_iff.mp reached
    exact ih (kept state input next initial along.1 taken) (along.2 next taken) remaining

/-- The fault rule: a fault that no step takes from the invariant is never reached. -/
theorem run_avoids {invariant : State → Prop} {bad : Fault}
    (kept : ∀ state input next, invariant state → good state input →
      step state input = .ok next → invariant next)
    (avoided : ∀ state input, invariant state → good state input → step state input ≠ .error bad)
    {state : State} {inputs : List Input} (initial : invariant state)
    (along : Along step good state inputs) : run step state inputs ≠ .error bad := by
  induction inputs generalizing state with
  | nil => simp
  | cons input rest ih =>
    rw [run]
    cases taken : step state input with
    | ok next => exact ih (kept state input next initial along.1 taken) (along.2 next taken)
    | error fault =>
      intro faulted
      cases faulted
      exact avoided state input initial along.1 taken

/-- The progress rule: a run whose steps succeed and keep the invariant succeeds. -/
theorem run_succeeds {invariant : State → Prop}
    (taken : ∀ state input, invariant state → good state input →
      ∃ next, step state input = .ok next ∧ invariant next)
    {state : State} {inputs : List Input} (initial : invariant state)
    (along : Along step good state inputs) : ∃ final, run step state inputs = .ok final ∧ invariant final := by
  induction inputs generalizing state with
  | nil => exact ⟨state, rfl, initial⟩
  | cons input rest ih =>
    obtain ⟨next, found, holds⟩ := taken state input initial along.1
    rw [run_cons_of_ok found]
    exact ih holds (along.2 next found)

theorem run_keeps (invariant : State → Prop)
    (kept : ∀ state input next, invariant state → step state input = .ok next → invariant next)
    {state final : State} {inputs : List Input} (initial : invariant state)
    (reached : run step state inputs = .ok final) : invariant final :=
  run_invariant (fun state input next holds (_ : True) taken => kept state input next holds taken) initial
    (along_of_forall (fun _ _ => trivial) state inputs) reached

theorem run_completes (invariant : State → Prop)
    (taken : ∀ state input, invariant state → ∃ next, step state input = .ok next ∧ invariant next)
    {state : State} (initial : invariant state) (inputs : List Input) :
    ∃ final, run step state inputs = .ok final ∧ invariant final :=
  run_succeeds (fun state input holds (_ : True) => taken state input holds) initial
    (along_of_forall (fun _ _ => trivial) state inputs)

theorem foldlM_eq_run (inputs : List Input) (state : State) : inputs.foldlM step state = run step state inputs := by
  induction inputs generalizing state with
  | nil => rfl
  | cons input rest ih =>
    rw [List.foldlM_cons, run]
    cases step state input with
    | ok next => exact ih next
    | error fault => rfl

/-- The counting rule: a run of the inputs `0, 1, …` carries an invariant that counts
the inputs taken. -/
theorem run_range_invariant {step : State → Nat → Except Fault State} {good : State → Nat → Prop}
    {invariant : Nat → State → Prop}
    (kept : ∀ k state next, invariant k state → good state k → step state k = .ok next → invariant (k + 1) next)
    {count : Nat} {state final : State} (initial : invariant 0 state)
    (along : Along step good state (List.range count)) (reached : run step state (List.range count) = .ok final) :
    invariant count final := by
  have counted (start count : Nat) (state : State) (holds : invariant start state)
      (along : Along step good state (List.range' start count))
      (reached : run step state (List.range' start count) = .ok final) : invariant (start + count) final := by
    induction count generalizing start state with
    | zero =>
      cases reached
      exact holds
    | succ count ih =>
      rw [List.range'_succ] at along reached
      obtain ⟨next, taken, remaining⟩ := run_cons_ok_iff.mp reached
      have later := ih (start + 1) next (kept start state next holds along.1 taken) (along.2 next taken) remaining
      rwa [Nat.add_right_comm, Nat.add_assoc] at later
  rw [List.range_eq_range'] at along reached
  exact Nat.zero_add count ▸ counted 0 count state initial along reached

end Trigger.Foundation
