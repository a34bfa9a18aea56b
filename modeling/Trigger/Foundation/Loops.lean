import Mathlib.Logic.Relation

/-! Loops whose body may fault.

One pass over the body either goes on from a next state or leaves the loop with a
result. What the loop reaches is the closure of its passes; a measure that every
pass lowers brings it to an exit.
-/

set_option autoImplicit false

namespace Trigger.Foundation

inductive Pass (State Result : Type) where
  | goOn (next : State)
  | leave (result : Result)

variable {State Result Fault : Type} {body : State → Except Fault (Pass State Result)}

def GoesOn (body : State → Except Fault (Pass State Result)) (state next : State) : Prop :=
  body state = .ok (.goOn next)

def Reaches (body : State → Except Fault (Pass State Result)) : State → State → Prop :=
  Relation.ReflTransGen (GoesOn body)

def Returns (body : State → Except Fault (Pass State Result)) (start : State) (result : Result) : Prop :=
  ∃ last, Reaches body start last ∧ body last = .ok (.leave result)

theorem Reaches.refl (state : State) : Reaches body state state := Relation.ReflTransGen.refl

theorem Reaches.next {start state next : State} (reached : Reaches body start state)
    (taken : body state = .ok (.goOn next)) : Reaches body start next :=
  Relation.ReflTransGen.tail reached taken

theorem returns_iff_of_goOn {state next : State} {result : Result} (taken : body state = .ok (.goOn next)) :
    Returns body state result ↔ Returns body next result := by
  constructor
  · rintro ⟨last, reached, left⟩
    rcases Relation.ReflTransGen.cases_head reached with rfl | ⟨other, first, later⟩
    · cases taken.symm.trans left
    · cases taken.symm.trans first
      exact ⟨last, later, left⟩
  · rintro ⟨last, reached, left⟩
    exact ⟨last, Relation.ReflTransGen.head taken reached, left⟩

theorem not_returns_of_error {state : State} {fault : Fault} (failed : body state = .error fault) (result : Result) :
    ¬ Returns body state result := by
  rintro ⟨last, reached, left⟩
  rcases Relation.ReflTransGen.cases_head reached with rfl | ⟨other, first, -⟩
  · cases failed.symm.trans left
  · cases failed.symm.trans first

theorem Returns.unique {start : State} {first second : Result} (returned : Returns body start first)
    (other : Returns body start second) : first = second := by
  obtain ⟨last, reached, left⟩ := returned
  induction reached using Relation.ReflTransGen.head_induction_on with
  | refl =>
    obtain ⟨stop, later, leaves⟩ := other
    rcases Relation.ReflTransGen.cases_head later with rfl | ⟨next, taken, -⟩
    · cases left.symm.trans leaves
      rfl
    · cases left.symm.trans taken
  | head taken _ ih => exact ih ((returns_iff_of_goOn taken).mp other)

/-- The loop rule: what one pass keeps holds of every state the loop reaches. -/
theorem Reaches.invariant (invariant : State → Prop)
    (kept : ∀ state next, invariant state → body state = .ok (.goOn next) → invariant next)
    {start state : State} (initial : invariant start) (reached : Reaches body start state) :
    invariant state := by
  induction reached with
  | refl => exact initial
  | tail _ taken ih => exact kept _ _ ih taken

/-- The exit rule: while every pass that does not exit keeps the invariant and lowers
the measure, an exit is reached. -/
theorem Reaches.exit (invariant exit : State → Prop) (measure : State → Nat)
    (progress : ∀ state, invariant state → exit state ∨
      ∃ next, body state = .ok (.goOn next) ∧ invariant next ∧ measure next < measure state)
    {start : State} (initial : invariant start) :
    ∃ last, Reaches body start last ∧ invariant last ∧ exit last := by
  have bounded (bound : Nat) (state : State) (holds : invariant state) (small : measure state < bound)
      (reached : Reaches body start state) :
      ∃ last, Reaches body start last ∧ invariant last ∧ exit last := by
    induction bound generalizing state with
    | zero => exact absurd small (Nat.not_lt_zero _)
    | succ bound ih =>
      rcases progress state holds with done | ⟨next, taken, holdsNext, lower⟩
      · exact ⟨state, reached, holds, done⟩
      · exact ih next holdsNext (by omega) (reached.next taken)
  exact bounded (measure start + 1) start initial (Nat.lt_succ_self _) (.refl start)

theorem Reaches.linear {start first second : State} (reached : Reaches body start first)
    (also : Reaches body start second) : Reaches body first second ∨ Reaches body second first := by
  refine Relation.ReflTransGen.total_of_right_unique ?_ reached also
  intro state next other taken instead
  cases Eq.trans (Eq.symm taken) instead
  rfl

section
variable {counter : State → Nat} (counts : ∀ state next, body state = .ok (.goOn next) → counter next = counter state + 1)
include counts

theorem Reaches.counter_le {first last : State} (reached : Reaches body first last) : counter first ≤ counter last := by
  induction reached with
  | refl => exact Nat.le_refl _
  | tail _ taken ih => exact Nat.le_trans ih (by rw [counts _ _ taken]; exact Nat.le_succ _)

theorem Reaches.between {first last : State} (reached : Reaches body first last) {value : Nat}
    (above : counter first ≤ value) (below : value ≤ counter last) :
    ∃ middle, Reaches body first middle ∧ Reaches body middle last ∧ counter middle = value := by
  induction reached with
  | refl => exact ⟨first, .refl first, .refl first, Nat.le_antisymm above below⟩
  | @tail before last earlier taken ih =>
    have one := counts _ _ taken
    by_cases reachedBefore : value ≤ counter before
    · obtain ⟨middle, front, back, same⟩ := ih reachedBefore
      exact ⟨middle, front, back.next taken, same⟩
    · exact ⟨last, Reaches.next earlier taken, .refl last, by omega⟩

theorem Reaches.eq_of_counter {start first second : State} (reached : Reaches body start first)
    (also : Reaches body start second) (same : counter first = counter second) : first = second := by
  have stays {first second : State} (later : Reaches body first second) (same : counter first = counter second) :
      first = second := by
    rcases Relation.ReflTransGen.cases_head later with rfl | ⟨next, taken, rest⟩
    · rfl
    · have grows := Reaches.counter_le counts rest
      have one := counts _ _ taken
      omega
  rcases reached.linear also with later | earlier
  · exact stays later same
  · exact (stays earlier same.symm).symm

end

end Trigger.Foundation
