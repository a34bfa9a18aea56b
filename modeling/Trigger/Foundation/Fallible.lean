import Mathlib.Data.List.Basic
import Mathlib.Data.List.Forall2

/-! Sequencing of computations that may fault: what a successful bind, a
successful traversal and a successful loop say about their parts.
-/

set_option autoImplicit false

namespace Trigger.Foundation

variable {Fault A B : Type}

theorem ok_bind (value : A) (next : A → Except Fault B) : (Except.ok value >>= next) = next value := rfl

theorem bind_ok_iff {first : Except Fault A} {next : A → Except Fault B} {result : B} :
    first >>= next = .ok result ↔ ∃ value, first = .ok value ∧ next value = .ok result := by
  cases first with
  | error fault => simp [Bind.bind, Except.bind]
  | ok value => simp [Bind.bind, Except.bind]

theorem bind_error_iff {first : Except Fault A} {next : A → Except Fault B} {fault : Fault} :
    first >>= next = .error fault ↔
      first = .error fault ∨ ∃ value, first = .ok value ∧ next value = .error fault := by
  cases first with
  | error fault => simp [Bind.bind, Except.bind]
  | ok value => simp [Bind.bind, Except.bind]

theorem map_ok_iff {computed : Except Fault A} {f : A → B} {result : B} :
    computed.map f = .ok result ↔ ∃ value, computed = .ok value ∧ f value = result := by
  cases computed with
  | error fault => simp [Except.map]
  | ok value => simp [Except.map]

theorem map_succeeds_iff {computed : Except Fault A} {f : A → B} :
    (∃ result, computed.map f = .ok result) ↔ ∃ value, computed = .ok value := by
  cases computed with
  | error fault => simp [Except.map]
  | ok value => simp [Except.map]

theorem map_bind_of_eq {C D : Type} {first : Except Fault A} {g : C → D} {next : A → Except Fault C}
    {other : A → Except Fault D} (later : ∀ value, (next value).map g = other value) :
    (first >>= next).map g = first >>= other := by
  cases first with
  | error fault => rfl
  | ok value => exact later value

theorem map_bind_of_map_eq {C D : Type} {first : Except Fault A} {second : Except Fault B} {f : A → B} {g : C → D}
    {next : A → Except Fault C} {other : B → Except Fault D} (same : first.map f = second)
    (later : ∀ value, (next value).map g = other (f value)) : (first >>= next).map g = second >>= other := by
  subst same
  cases first with
  | error fault => rfl
  | ok value => exact later value

/-- A traversal succeeds exactly by succeeding at each element, in order. -/
theorem mapM_ok_iff {f : A → Except Fault B} {source : List A} {target : List B} :
    source.mapM f = .ok target ↔ List.Forall₂ (fun a b => f a = .ok b) source target := by
  induction source generalizing target with
  | nil => cases target <;> simp [pure, Except.pure]
  | cons head rest ih =>
    rw [List.mapM_cons, bind_ok_iff]
    constructor
    · rintro ⟨value, found, traversed⟩
      obtain ⟨values, tail, same⟩ := bind_ok_iff.mp traversed
      cases same
      exact .cons found (ih.mp tail)
    · intro related
      cases related with
      | cons found tail => exact ⟨_, found, bind_ok_iff.mpr ⟨_, ih.mpr tail, rfl⟩⟩

theorem mapM_of_ok {f : A → Except Fault B} {g : A → B} {source : List A}
    (each : ∀ a ∈ source, f a = .ok (g a)) : source.mapM f = .ok (source.map g) := by
  rw [mapM_ok_iff, List.forall₂_map_right_iff, List.forall₂_same]
  exact each

theorem mapM_ok_forall_iff {f : A → Except Fault B} {source : List A} (good : B → Prop) :
    (∃ target, source.mapM f = .ok target ∧ ∀ b ∈ target, good b) ↔ ∀ a ∈ source, ∃ b, f a = .ok b ∧ good b := by
  simp only [mapM_ok_iff]
  induction source with
  | nil => simp
  | cons head rest ih =>
    rw [List.forall_mem_cons, ← ih]
    constructor
    · rintro ⟨target, related, each⟩
      cases related with
      | cons found tail =>
        rw [List.forall_mem_cons] at each
        exact ⟨⟨_, found, each.1⟩, _, tail, each.2⟩
    · rintro ⟨⟨value, found, holds⟩, values, tail, each⟩
      exact ⟨value :: values, .cons found tail, List.forall_mem_cons.mpr ⟨holds, each⟩⟩

theorem mapM_succeeds_iff {f : A → Except Fault B} {source : List A} :
    (∃ target, source.mapM f = .ok target) ↔ ∀ a ∈ source, ∃ b, f a = .ok b := by
  simpa using mapM_ok_forall_iff (f := f) fun _ => True

theorem length_of_mapM_ok {f : A → Except Fault B} {source : List A} {target : List B}
    (traversed : source.mapM f = .ok target) : target.length = source.length :=
  (mapM_ok_iff.mp traversed).length_eq.symm

theorem mapM_getElem? {f : A → Except Fault B} {source : List A} {target : List B}
    (traversed : source.mapM f = .ok target) {k : Nat} {a : A} (found : source[k]? = some a) :
    ∃ b, f a = .ok b ∧ target[k]? = some b := by
  obtain ⟨inside, rfl⟩ := List.getElem?_eq_some_iff.mp found
  have within : k < target.length := by rwa [length_of_mapM_ok traversed]
  exact ⟨_, (mapM_ok_iff.mp traversed).get inside within, List.getElem?_eq_getElem within⟩

theorem exists_of_getElem?_mapM {f : A → Except Fault B} {source : List A} {target : List B}
    (traversed : source.mapM f = .ok target) {k : Nat} {b : B} (stored : target[k]? = some b) :
    ∃ a, source[k]? = some a ∧ f a = .ok b := by
  obtain ⟨within, rfl⟩ := List.getElem?_eq_some_iff.mp stored
  have inside : k < source.length := by rwa [← length_of_mapM_ok traversed]
  exact ⟨_, List.getElem?_eq_getElem inside, (mapM_ok_iff.mp traversed).get inside within⟩

theorem exists_of_mem_right {R : A → B → Prop} {source : List A} {target : List B}
    (related : List.Forall₂ R source target) {b : B} (member : b ∈ target) : ∃ a ∈ source, R a b := by
  induction related with
  | nil => cases member
  | cons head _ ih =>
    rcases List.mem_cons.mp member with rfl | later
    · exact ⟨_, List.mem_cons_self .., head⟩
    · obtain ⟨a, listed, found⟩ := ih later
      exact ⟨a, List.mem_cons_of_mem _ listed, found⟩

theorem exists_of_mem_mapM {f : A → Except Fault B} {source : List A} {target : List B}
    (traversed : source.mapM f = .ok target) {b : B} (member : b ∈ target) : ∃ a ∈ source, f a = .ok b :=
  exists_of_mem_right (mapM_ok_iff.mp traversed) member

theorem mem_mapM_ok_iff {f : A → Except Fault B} {source : List A} {target : List B}
    (traversed : source.mapM f = .ok target) {b : B} : b ∈ target ↔ ∃ a ∈ source, f a = .ok b := by
  refine ⟨exists_of_mem_mapM traversed, ?_⟩
  rintro ⟨a, member, found⟩
  obtain ⟨k, place⟩ := List.mem_iff_getElem?.mp member
  obtain ⟨other, again, stored⟩ := mapM_getElem? traversed place
  cases found.symm.trans again
  exact List.mem_of_getElem? stored

theorem mapM_range_ok_iff {f : Nat → Except Fault A} {count : Nat} {target : List A} :
    (List.range count).mapM f = .ok target ↔
      target.length = count ∧ ∀ k < count, ∃ a, f k = .ok a ∧ target[k]? = some a := by
  rw [mapM_ok_iff, List.forall₂_iff_get]
  simp only [List.length_range, List.get_eq_getElem, List.getElem_range]
  constructor
  · rintro ⟨length, each⟩
    refine ⟨length.symm, fun k inside => ⟨target[k], each k inside (length ▸ inside), ?_⟩⟩
    exact List.getElem?_eq_getElem _
  · rintro ⟨length, each⟩
    refine ⟨length.symm, fun k inside within => ?_⟩
    obtain ⟨a, found, same⟩ := each k inside
    rw [List.getElem?_eq_getElem within] at same
    rw [found, Option.some.inj same]

def faultOf : Except Fault A → Option Fault
  | .error fault => some fault
  | .ok _ => none

/-- The computation succeeds, with a value that passes the test. -/
def succeedsWith (test : A → Prop) [DecidablePred test] : Except Fault A → Bool
  | .error _ => false
  | .ok value => decide (test value)

theorem exists_ok_of_succeedsWith {test : A → Prop} [DecidablePred test] {result : Except Fault A}
    (passes : succeedsWith test result = true) : ∃ value, result = .ok value ∧ test value := by
  cases result with
  | error fault => cases passes
  | ok value => exact ⟨value, rfl, of_decide_eq_true passes⟩

theorem faultOf_eq_some_iff {result : Except Fault A} {fault : Fault} :
    faultOf result = some fault ↔ result = .error fault := by
  cases result <;> simp [faultOf]

/-- The computation does not stop with this fault. -/
def Avoids (bad : Fault) (result : Except Fault A) : Prop := result ≠ .error bad

section
variable {bad : Fault}

@[simp] theorem avoids_ok (value : A) : Avoids bad (.ok value) := by simp [Avoids]

@[simp] theorem avoids_pure (value : A) : Avoids bad (pure value : Except Fault A) := avoids_ok value

@[simp] theorem avoids_error_iff {fault : Fault} :
    Avoids bad (.error fault : Except Fault A) ↔ fault ≠ bad := by
  simp [Avoids]

@[simp] theorem avoids_bind_iff {first : Except Fault A} {next : A → Except Fault B} :
    Avoids bad (first >>= next) ↔
      Avoids bad first ∧ ∀ value, first = .ok value → Avoids bad (next value) := by
  simp only [Avoids, ne_eq, bind_error_iff, not_or, not_exists, not_and]

@[simp] theorem avoids_map_iff {result : Except Fault A} {f : A → B} :
    Avoids bad (result.map f) ↔ Avoids bad result := by
  cases result <;> simp [Except.map]

@[simp] theorem avoids_functor_map_iff {result : Except Fault A} {f : A → B} :
    Avoids bad (f <$> result) ↔ Avoids bad result := avoids_map_iff

theorem avoids_mapM {f : A → Except Fault B} {source : List A} (each : ∀ a ∈ source, Avoids bad (f a)) :
    Avoids bad (source.mapM f) := by
  induction source with
  | nil => exact avoids_ok []
  | cons head rest ih =>
    rw [List.forall_mem_cons] at each
    rw [List.mapM_cons]
    exact avoids_bind_iff.mpr ⟨each.1, fun value _ => avoids_bind_iff.mpr ⟨ih each.2, fun _ _ => avoids_ok _⟩⟩

theorem avoids_foldlM {f : B → A → Except Fault B} {source : List A}
    (each : ∀ state, ∀ a ∈ source, Avoids bad (f state a)) (start : B) :
    Avoids bad (source.foldlM f start) := by
  induction source generalizing start with
  | nil => exact avoids_ok start
  | cons head rest ih =>
    rw [List.foldlM_cons]
    exact avoids_bind_iff.mpr ⟨each start head (List.mem_cons_self ..), fun next _ =>
      ih (fun state a member => each state a (List.mem_cons_of_mem _ member)) next⟩

end

/-- The loop rule: what every step keeps holds after the loop. -/
theorem foldlM_invariant {f : B → A → Except Fault B} {source : List A} (invariant : B → Prop)
    (kept : ∀ state, ∀ a ∈ source, ∀ next, invariant state → f state a = .ok next → invariant next)
    {start final : B} (initial : invariant start) (result : source.foldlM f start = .ok final) :
    invariant final := by
  induction source generalizing start with
  | nil =>
    cases result
    exact initial
  | cons head rest ih =>
    rw [List.foldlM_cons] at result
    obtain ⟨next, taken, remaining⟩ := bind_ok_iff.mp result
    exact ih (fun state a member => kept state a (List.mem_cons_of_mem _ member))
      (kept start head (List.mem_cons_self ..) next initial taken) remaining

/-- The history rule: the invariant speaks of the elements already taken. -/
theorem foldlM_history {f : B → A → Except Fault B} {source : List A} (invariant : List A → B → Prop)
    (kept : ∀ taken state a next, invariant taken state → f state a = .ok next → invariant (taken ++ [a]) next)
    {start final : B} (initial : invariant [] start) (result : source.foldlM f start = .ok final) :
    invariant source final := by
  have continued (later taken : List A) (state : B) (holds : invariant taken state)
      (result : later.foldlM f state = .ok final) : invariant (taken ++ later) final := by
    induction later generalizing taken state with
    | nil =>
      cases result
      rwa [List.append_nil]
    | cons head rest ih =>
      rw [List.foldlM_cons] at result
      obtain ⟨next, stepped, remaining⟩ := bind_ok_iff.mp result
      have reached := ih (taken ++ [head]) next (kept taken state head next holds stepped) remaining
      rwa [List.append_assoc] at reached
  exact continued source [] start initial result

/-- What one element establishes and every step keeps holds after the loop. -/
theorem foldlM_establishes {f : B → A → Except Fault B} {source : List A} (goal : B → Prop)
    (kept : ∀ state a next, goal state → f state a = .ok next → goal next) {a : A} (member : a ∈ source)
    (established : ∀ state next, f state a = .ok next → goal next) {start final : B}
    (result : source.foldlM f start = .ok final) : goal final := by
  obtain ⟨front, back, rfl⟩ := List.append_of_mem member
  rw [List.foldlM_append] at result
  obtain ⟨before, _, rest⟩ := bind_ok_iff.mp result
  rw [List.foldlM_cons] at rest
  obtain ⟨reached, taken, remaining⟩ := bind_ok_iff.mp rest
  exact foldlM_invariant goal (fun state other _ next holds => kept state other next holds)
    (established before reached taken) remaining

theorem foldlM_succeeds_iff {f : B → A → Except Fault B} {source : List A} {good : A → Prop}
    (each : ∀ state, ∀ a ∈ source, (∃ next, f state a = .ok next) ↔ good a) (start : B) :
    (∃ final, source.foldlM f start = .ok final) ↔ ∀ a ∈ source, good a := by
  induction source generalizing start with
  | nil => simp [pure, Except.pure]
  | cons head rest ih =>
    have later := ih fun state a member => each state a (List.mem_cons_of_mem _ member)
    have first := each start head (List.mem_cons_self ..)
    rw [List.forall_mem_cons, ← first, List.foldlM_cons]
    constructor
    · rintro ⟨final, result⟩
      obtain ⟨next, taken, remaining⟩ := bind_ok_iff.mp result
      exact ⟨⟨next, taken⟩, (later next).mp ⟨final, remaining⟩⟩
    · rintro ⟨⟨next, taken⟩, all⟩
      obtain ⟨final, remaining⟩ := (later next).mpr all
      exact ⟨final, bind_ok_iff.mpr ⟨next, taken, remaining⟩⟩

end Trigger.Foundation
