import Trigger.Engine.Entities
import Trigger.Foundation.Cells
import Trigger.Foundation.Runs
import Mathlib.Tactic.Ring

/-! The entity manager with the array behind it.

`create_entity` doubles the capacity of a full manager, reallocates the array to it
and creates a record, in this order; both allocations may fail, and what was done
before stays. To reallocate to no bytes at all either returns a block without cells or
frees the array and returns null, as the C library does that the program is built with.
-/

set_option autoImplicit false

namespace Trigger.Engine.Growth
open Foundation

structure Entity (Data VTable : Type) where
  data : Data
  active : Int
  vtable : VTable
  deriving DecidableEq

/-- `entities` are the allocated cells; the pointer to them is `live` until the array is freed. -/
structure EntityManager (Data VTable : Type) where
  count : Nat
  capacity : Nat
  entities : Cells (Entity Data VTable)
  live : Bool
  deriving DecidableEq

/-- Whether the allocations of a call return memory. -/
structure Allocations where
  reallocs : Bool
  mallocs : Bool
  deriving DecidableEq

/-- The arguments of a call of `create_entity`; a vtable may be missing. -/
structure Creation (Data VTable : Type) where
  data : Data
  vtable : Option VTable
  allocations : Allocations
  deriving DecidableEq

variable {Data VTable : Type}

def createEntityManager (capacity : Nat) : EntityManager Data VTable := ⟨0, capacity, Cells.unwritten capacity, true⟩

/-- The capacity is an `int`. -/
def doubled (capacity : Nat) : Except Fault Nat :=
  if capacity * 2 < 2 ^ 31 then .ok (capacity * 2) else .error .signedOverflow

/-- The manager before the record is created, and whether the call goes on. -/
def EntityManager.makeRoom (manager : EntityManager Data VTable) (reallocs : Bool) :
    Except Fault (EntityManager Data VTable × Bool) :=
  if manager.count ≥ manager.capacity then do
    let capacity ← doubled manager.capacity
    let manager := { manager with capacity }
    if manager.live = false then .error .wildAccess
    else if reallocs = true then return ({ manager with entities := manager.entities.resize capacity }, true)
    -- Without memory the call returns, and the new capacity stays.
    else if 0 < capacity then return (manager, false)
    else return ({ manager with entities := [], live := false }, false)
  else .ok (manager, true)

def EntityManager.append (manager : EntityManager Data VTable) (entity : Entity Data VTable) :
    Except Fault (EntityManager Data VTable) := do
  let entities ← manager.entities.store manager.count entity
  return { manager with entities, count := manager.count + 1 }

/-- The manager behind the call, and the entity it returns. -/
def createEntity (manager : EntityManager Data VTable) (creation : Creation Data VTable) :
    Except Fault (EntityManager Data VTable × Option (Entity Data VTable)) :=
  match creation.vtable with
  | none => .ok (manager, none)
  | some vtable => do
    let (manager, room) ← manager.makeRoom creation.allocations.reallocs
    if room = true ∧ creation.allocations.mallocs = true then
      let entity := ⟨creation.data, 1, vtable⟩
      return (← manager.append entity, some entity)
    else return (manager, none)

def createStep (manager : EntityManager Data VTable) (creation : Creation Data VTable) :
    Except Fault (EntityManager Data VTable) :=
  (createEntity manager creation).map Prod.fst

structure EntityManager.Bounded (manager : EntityManager Data VTable) : Prop where
  count : manager.count ≤ manager.capacity
  capacity : manager.capacity ≤ manager.entities.length
  live : manager.live = true

/-- The manager has these entities, in this order. -/
structure EntityManager.Has (manager : EntityManager Data VTable) (entities : List (Entity Data VTable)) : Prop where
  count : manager.count = entities.length
  bounded : manager.Bounded
  hold : manager.entities.Hold entities

def EntityManager.grown (manager : EntityManager Data VTable) : EntityManager Data VTable :=
  { manager with capacity := manager.capacity * 2, entities := manager.entities.resize (manager.capacity * 2) }

def EntityManager.refused (manager : EntityManager Data VTable) : EntityManager Data VTable :=
  if 0 < manager.capacity then { manager with capacity := manager.capacity * 2 }
  else { manager with capacity := 0, entities := [], live := false }

def EntityManager.add (manager : EntityManager Data VTable) (entity : Entity Data VTable) : EntityManager Data VTable :=
  { manager with entities := manager.entities.set manager.count (some entity), count := manager.count + 1 }

variable {manager : EntityManager Data VTable} {entities : List (Entity Data VTable)}

theorem doubled_of_fits {capacity : Nat} (fits : capacity * 2 < 2 ^ 31) : doubled capacity = .ok (capacity * 2) :=
  if_pos fits

theorem doubled_of_large {capacity : Nat} (large : ¬ capacity * 2 < 2 ^ 31) :
    doubled capacity = .error .signedOverflow :=
  if_neg large

theorem makeRoom_of_room (room : manager.count < manager.capacity) (reallocs : Bool) :
    manager.makeRoom reallocs = .ok (manager, true) :=
  if_neg (Nat.not_le_of_lt room)

theorem makeRoom_of_full (bounded : manager.Bounded) (full : manager.capacity ≤ manager.count)
    (fits : manager.capacity * 2 < 2 ^ 31) (reallocs : Bool) : manager.makeRoom reallocs =
      .ok (if reallocs = true then (manager.grown, true) else (manager.refused, false)) := by
  have live : ¬ manager.live = false := by simp [bounded.live]
  rw [EntityManager.makeRoom, if_pos full, doubled_of_fits fits]
  change (if manager.live = false then _ else _) = _
  rw [if_neg live]
  cases reallocs with
  | true => rfl
  | false =>
    rw [if_neg Bool.false_ne_true, if_neg Bool.false_ne_true, EntityManager.refused]
    by_cases positive : 0 < manager.capacity
    · rw [if_pos positive, if_pos (by omega)]
      rfl
    · rw [if_neg positive, if_neg (by omega), show manager.capacity * 2 = 0 by omega]
      rfl

theorem makeRoom_of_large (full : manager.capacity ≤ manager.count) (large : ¬ manager.capacity * 2 < 2 ^ 31)
    (reallocs : Bool) : manager.makeRoom reallocs = .error .signedOverflow := by
  rw [EntityManager.makeRoom, if_pos full, doubled_of_large large]
  rfl

theorem EntityManager.Bounded.grown (bounded : manager.Bounded) : manager.grown.Bounded where
  count := Nat.le_trans bounded.count (Nat.le_mul_of_pos_right _ (by decide))
  capacity := by rw [EntityManager.grown, Cells.length_resize]
  live := bounded.live

theorem EntityManager.Bounded.add (bounded : manager.Bounded) (room : manager.count < manager.capacity)
    (entity : Entity Data VTable) : (manager.add entity).Bounded where
  count := room
  capacity := by rw [EntityManager.add, List.length_set]; exact bounded.capacity
  live := bounded.live

theorem EntityManager.Bounded.grown_room (bounded : manager.Bounded) (positive : 0 < manager.capacity) :
    manager.grown.count < manager.grown.capacity := by
  have atMost := bounded.count
  change manager.count < manager.capacity * 2
  omega

theorem EntityManager.Has.grown (has : manager.Has entities) : manager.grown.Has entities where
  count := has.count
  bounded := has.bounded.grown
  hold := has.hold.resize (by
    have inside := has.bounded.count
    rw [has.count] at inside
    omega)

theorem EntityManager.Has.add (has : manager.Has entities) (room : manager.count < manager.capacity)
    (entity : Entity Data VTable) : (manager.add entity).Has (entities ++ [entity]) where
  count := by rw [List.length_append, ← has.count]; rfl
  bounded := has.bounded.add room entity
  hold := by
    have inside := has.bounded.capacity
    rw [EntityManager.add, has.count]
    exact has.hold.store (by rw [← has.count]; omega) entity

theorem createEntityManager_has (capacity : Nat) : (createEntityManager capacity : EntityManager Data VTable).Has [] where
  count := rfl
  bounded := ⟨Nat.zero_le _, by rw [createEntityManager, Cells.length_unwritten], rfl⟩
  hold := Cells.hold_nil _

theorem append_of_inside (inside : manager.count < manager.entities.length) (entity : Entity Data VTable) :
    manager.append entity = .ok (manager.add entity) := by
  rw [EntityManager.append, Cells.store, if_pos inside]
  rfl

theorem append_of_outside (outside : ¬ manager.count < manager.entities.length) (entity : Entity Data VTable) :
    manager.append entity = .error .outOfBounds := by
  rw [EntityManager.append, Cells.store, if_neg outside]
  rfl

theorem createEntity_of_made {creation : Creation Data VTable} {vtable : VTable} (given : creation.vtable = some vtable)
    {next : EntityManager Data VTable} {room : Bool}
    (made : manager.makeRoom creation.allocations.reallocs = .ok (next, room)) :
    createEntity manager creation =
      if room = true ∧ creation.allocations.mallocs = true then
        (next.append ⟨creation.data, 1, vtable⟩).map fun next => (next, some ⟨creation.data, 1, vtable⟩)
      else .ok (next, none) := by
  rw [createEntity, given]
  dsimp only
  rw [made]
  change (if room = true ∧ creation.allocations.mallocs = true then _ else _) = _
  split
  · cases next.append ⟨creation.data, 1, vtable⟩ <;> rfl
  · rfl

theorem createEntity_of_large {creation : Creation Data VTable} {vtable : VTable} (given : creation.vtable = some vtable)
    (full : manager.capacity ≤ manager.count) (large : ¬ manager.capacity * 2 < 2 ^ 31) :
    createEntity manager creation = .error .signedOverflow := by
  rw [createEntity, given]
  dsimp only
  rw [makeRoom_of_large full large]
  rfl

def Creation.entity (creation : Creation Data VTable) (vtable : VTable) : Entity Data VTable :=
  ⟨creation.data, 1, vtable⟩

theorem createEntity_of_null {creation : Creation Data VTable} (missing : creation.vtable = none) :
    createEntity manager creation = .ok (manager, none) := by
  rw [createEntity, missing]

theorem createEntity_of_room {creation : Creation Data VTable} {vtable : VTable} (given : creation.vtable = some vtable)
    (bounded : manager.Bounded) (room : manager.count < manager.capacity) :
    createEntity manager creation =
      if creation.allocations.mallocs = true then .ok (manager.add (creation.entity vtable), some (creation.entity vtable))
      else .ok (manager, none) := by
  rw [createEntity_of_made given (makeRoom_of_room room _)]
  by_cases mallocs : creation.allocations.mallocs = true
  · rw [if_pos ⟨rfl, mallocs⟩, if_pos mallocs, append_of_inside (Nat.lt_of_lt_of_le room bounded.capacity)]
    rfl
  · rw [if_neg fun both => mallocs both.2, if_neg mallocs]

theorem createEntity_of_full {creation : Creation Data VTable} {vtable : VTable} (given : creation.vtable = some vtable)
    (bounded : manager.Bounded) (full : manager.capacity ≤ manager.count) (fits : manager.capacity * 2 < 2 ^ 31) :
    createEntity manager creation =
      if creation.allocations.reallocs = true then
        if creation.allocations.mallocs = true then
          if 0 < manager.capacity then
            .ok (manager.grown.add (creation.entity vtable), some (creation.entity vtable))
          else .error .outOfBounds
        else .ok (manager.grown, none)
      else .ok (manager.refused, none) := by
  have made := makeRoom_of_full bounded full fits creation.allocations.reallocs
  by_cases reallocs : creation.allocations.reallocs = true
  · rw [if_pos reallocs] at made ⊢
    rw [createEntity_of_made given made]
    by_cases mallocs : creation.allocations.mallocs = true
    · rw [if_pos ⟨rfl, mallocs⟩, if_pos mallocs]
      have cells : manager.grown.entities.length = manager.capacity * 2 := Cells.length_resize ..
      have count : manager.grown.count = manager.capacity := Nat.le_antisymm bounded.count full
      split
      · rw [append_of_inside (by omega)]
        rfl
      · rw [append_of_outside (by omega)]
        rfl
    · rw [if_neg fun both => mallocs both.2, if_neg mallocs]
  · rw [if_neg reallocs] at made ⊢
    rw [createEntity_of_made given made]
    rfl

def granted (object : Data × VTable) : Creation Data VTable := ⟨object.1, some object.2, ⟨true, true⟩⟩

def created (object : Data × VTable) : Entity Data VTable := ⟨object.1, 1, object.2⟩

/-- Every store is inside the array, and after each call the manager has the entities so far. -/
structure Grows (capacity : Nat) (objects : List (Data × VTable)) : Prop where
  inside : ∃ final, run createStep (createEntityManager capacity) (objects.map granted) = .ok final
  has : ∀ front back manager, objects = front ++ back →
    run createStep (createEntityManager capacity) (front.map granted) = .ok manager → manager.Has (front.map created)

/-- What the capacity can be after it was doubled within `int`. -/
def DoublesTo (capacity value : Nat) : Prop :=
  ∃ doublings, value = capacity * 2 ^ doublings ∧ (doublings = 0 ∨ value < 2 ^ 31)

theorem DoublesTo.refl (capacity : Nat) : DoublesTo capacity capacity := ⟨0, by simp, .inl rfl⟩

theorem DoublesTo.double {capacity value : Nat} (doubles : DoublesTo capacity value) (fits : value * 2 < 2 ^ 31) :
    DoublesTo capacity (value * 2) := by
  obtain ⟨doublings, rfl, -⟩ := doubles
  exact ⟨doublings + 1, by ring, .inr fits⟩

theorem DoublesTo.double_le {capacity value last : Nat} (doubles : DoublesTo capacity value)
    (later : DoublesTo capacity last) (less : value < last) : 0 < value ∧ value * 2 ≤ last ∧ last < 2 ^ 31 := by
  obtain ⟨doublings, rfl, -⟩ := doubles
  obtain ⟨all, rfl, inRange⟩ := later
  have positive : 0 < capacity := Nat.pos_of_mul_pos_right (Nat.zero_lt_of_lt less)
  have fewer : doublings < all := (Nat.pow_lt_pow_iff_right (by decide)).mp (Nat.lt_of_mul_lt_mul_left less)
  refine ⟨Nat.mul_pos positive (Nat.two_pow_pos _), ?_, inRange.resolve_left (by omega)⟩
  rw [Nat.mul_assoc, ← Nat.pow_succ]
  exact Nat.mul_le_mul_left capacity (Nat.pow_le_pow_right (by decide) fewer)

def Suffices (capacity count : Nat) : Prop := ∃ last, DoublesTo capacity last ∧ count ≤ last

theorem createStep_granted (has : manager.Has entities) (object : Data × VTable) :
    createStep manager (granted object) =
      if manager.count < manager.capacity then .ok (manager.add (created object))
      else if manager.capacity * 2 < 2 ^ 31 then
        if 0 < manager.capacity then .ok (manager.grown.add (created object)) else .error .outOfBounds
      else .error .signedOverflow := by
  have given : (granted object).vtable = some object.2 := rfl
  rw [createStep]
  split
  · rename_i room
    rw [createEntity_of_room given has.bounded room]
    rfl
  · rename_i full
    split
    · rename_i fits
      rw [createEntity_of_full given has.bounded (Nat.le_of_not_lt full) fits]
      change Except.map Prod.fst (if 0 < manager.capacity then _ else _) = _
      split <;> rfl
    · rename_i large
      rw [createEntity_of_large given (Nat.le_of_not_lt full) large]
      rfl

theorem Has.step {capacity : Nat} {object : Data × VTable} {next : EntityManager Data VTable} (has : manager.Has entities)
    (doubles : DoublesTo capacity manager.capacity) (taken : createStep manager (granted object) = .ok next) :
    next.Has (entities ++ [created object]) ∧ DoublesTo capacity next.capacity := by
  rw [createStep_granted has] at taken
  split at taken
  · rename_i room
    cases taken
    exact ⟨has.add room _, doubles⟩
  · rename_i full
    split at taken
    · rename_i fits
      split at taken
      · rename_i positive
        cases taken
        exact ⟨has.grown.add (has.bounded.grown_room positive) _, doubles.double fits⟩
      · cases taken
    · cases taken

theorem createStep_granted_succeeds {capacity total : Nat} (has : manager.Has entities)
    (doubles : DoublesTo capacity manager.capacity) (fits : Suffices capacity total) (more : manager.count < total)
    (object : Data × VTable) :
    ∃ next, createStep manager (granted object) = .ok next := by
  rw [createStep_granted has]
  split
  · exact ⟨_, rfl⟩
  · rename_i full
    obtain ⟨last, later, enough⟩ := fits
    obtain ⟨positive, next, inRange⟩ := doubles.double_le later (by omega)
    rw [if_pos (Nat.lt_of_le_of_lt next inRange), if_pos positive]
    exact ⟨_, rfl⟩

theorem run_granted {capacity : Nat} (objects : List (Data × VTable)) {final : EntityManager Data VTable}
    (has : manager.Has entities) (doubles : DoublesTo capacity manager.capacity)
    (reached : run createStep manager (objects.map granted) = .ok final) :
    final.Has (entities ++ objects.map created) ∧ DoublesTo capacity final.capacity := by
  induction objects generalizing manager entities with
  | nil =>
    cases reached
    exact ⟨by simpa using has, doubles⟩
  | cons object rest ih =>
    obtain ⟨next, taken, remaining⟩ := run_cons_ok_iff.mp reached
    obtain ⟨hasNext, doublesNext⟩ := Has.step has doubles taken
    obtain ⟨hasFinal, doublesFinal⟩ := ih hasNext doublesNext remaining
    exact ⟨by simpa using hasFinal, doublesFinal⟩

theorem run_granted_succeeds {capacity total : Nat} (objects : List (Data × VTable)) (has : manager.Has entities)
    (doubles : DoublesTo capacity manager.capacity) (fits : Suffices capacity total)
    (few : manager.count + objects.length ≤ total) :
    ∃ final, run createStep manager (objects.map granted) = .ok final := by
  induction objects generalizing manager entities with
  | nil => exact ⟨manager, rfl⟩
  | cons object rest ih =>
    rw [List.length_cons] at few
    obtain ⟨next, taken⟩ := createStep_granted_succeeds has doubles fits (by omega) object
    obtain ⟨hasNext, doublesNext⟩ := Has.step has doubles taken
    have one : next.count = manager.count + 1 := by
      rw [hasNext.count, has.count, List.length_append, List.length_singleton]
    rw [List.map_cons, run_cons_of_ok taken]
    exact ih hasNext doublesNext (by omega)

/-- The array is large enough for its entities exactly when the first capacity can be
doubled to their number. -/
theorem grows_iff (capacity : Nat) (objects : List (Data × VTable)) :
    Grows capacity objects ↔ Suffices capacity objects.length := by
  have start : (createEntityManager capacity : EntityManager Data VTable).Has [] := createEntityManager_has capacity
  constructor
  · rintro ⟨⟨final, reached⟩, has⟩
    obtain ⟨hasFinal, doubles⟩ := run_granted objects start (DoublesTo.refl capacity) reached
    refine ⟨final.capacity, doubles, ?_⟩
    have atMost := hasFinal.bounded.count
    rw [hasFinal.count, List.nil_append, List.length_map] at atMost
    exact atMost
  · intro fits
    refine ⟨run_granted_succeeds objects start (DoublesTo.refl capacity) fits (Nat.le_of_eq (Nat.zero_add _)), ?_⟩
    intro front back manager _ reached
    exact (run_granted front start (DoublesTo.refl capacity) reached).1

/-- A manager of half the range of `int` is not made larger. -/
theorem halfRange_not_grows : ¬ Grows (2 ^ 30) (List.replicate (2 ^ 30 + 1) ((), ())) := by
  rw [grows_iff, List.length_replicate]
  rintro ⟨_, ⟨doublings, rfl, inRange⟩, enough⟩
  rcases inRange with rfl | inRange
  · omega
  · cases doublings with
    | zero => omega
    | succ doublings =>
      have twice : 2 ^ 30 * 2 ≤ 2 ^ 30 * 2 ^ (doublings + 1) :=
        Nat.mul_le_mul_left _ (Nat.le_self_pow (Nat.succ_ne_zero _) 2)
      omega

/-- A call that returns no entity changes nothing, so the array stays large enough. -/
structure FailsSafely (start : EntityManager Data VTable) (creations : List (Creation Data VTable)) : Prop where
  unchanged : ∀ front creation back manager next, creations = front ++ creation :: back →
    run createStep start front = .ok manager → createEntity manager creation = .ok (next, none) → next = manager
  bounded : ∀ front back manager, creations = front ++ back → run createStep start front = .ok manager → manager.Bounded
  inside : ∃ final, run createStep start creations = .ok final

/-- The call finds room, or nothing is missing to make it. An array without cells is left as it was
where it is reallocated to one without cells and the record is refused. -/
def Spared (manager : EntityManager Data VTable) (creation : Creation Data VTable) : Prop :=
  creation.vtable = none ∨ manager.count < manager.capacity ∨
    (0 < manager.capacity ∧ manager.capacity * 2 < 2 ^ 31 ∧
      creation.allocations.reallocs = true ∧ creation.allocations.mallocs = true) ∨
    (manager.capacity = 0 ∧ creation.allocations.reallocs = true ∧
      creation.allocations.mallocs = false ∧ manager.entities = [])

/-- The call returns, with an entity or without a change. -/
def Harmless (manager : EntityManager Data VTable) (creation : Creation Data VTable) : Prop :=
  ∃ next entity, createEntity manager creation = .ok (next, entity) ∧ (entity = none → next = manager)

theorem harmless_of_ok {creation : Creation Data VTable} {next : EntityManager Data VTable}
    {entity : Option (Entity Data VTable)} (taken : createEntity manager creation = .ok (next, entity)) :
    Harmless manager creation ↔ (entity = none → next = manager) := by
  constructor
  · rintro ⟨other, result, also, unchanged⟩
    cases taken.symm.trans also
    exact unchanged
  · exact fun unchanged => ⟨next, entity, taken, unchanged⟩

theorem not_harmless_of_error {creation : Creation Data VTable} {fault : Fault}
    (failed : createEntity manager creation = .error fault) : ¬ Harmless manager creation := by
  rintro ⟨next, entity, taken, -⟩
  cases failed.symm.trans taken

theorem grown_eq_iff : manager.grown = manager ↔ manager.capacity = 0 ∧ manager.entities = [] := by
  obtain ⟨count, capacity, entities, live⟩ := manager
  constructor
  · intro same
    obtain ⟨-, double, resized, -⟩ := EntityManager.mk.inj same
    have empty : capacity = 0 := by
      change capacity * 2 = capacity at double
      omega
    have cells : (entities.resize (capacity * 2)).length = 0 := by rw [Cells.length_resize, empty]
    exact ⟨empty, List.eq_nil_of_length_eq_zero (resized ▸ cells)⟩
  · rintro ⟨rfl, rfl⟩
    rfl

theorem refused_ne (live : manager.live = true) : manager.refused ≠ manager := by
  intro same
  unfold EntityManager.refused at same
  split at same
  · rename_i positive
    have double : manager.capacity * 2 = manager.capacity := congrArg EntityManager.capacity same
    omega
  · have freed : false = manager.live := congrArg EntityManager.live same
    cases freed.trans live

/-- A full manager is spared where both allocations succeed for a larger array. -/
theorem harmless_of_full_iff {creation : Creation Data VTable} {vtable : VTable} (given : creation.vtable = some vtable)
    (bounded : manager.Bounded) (full : manager.capacity ≤ manager.count) :
    Harmless manager creation ↔
      (0 < manager.capacity ∧ manager.capacity * 2 < 2 ^ 31 ∧
        creation.allocations.reallocs = true ∧ creation.allocations.mallocs = true) ∨
      (manager.capacity = 0 ∧ creation.allocations.reallocs = true ∧
        creation.allocations.mallocs = false ∧ manager.entities = []) := by
  by_cases fits : manager.capacity * 2 < 2 ^ 31
  case neg =>
    rw [iff_false_left (not_harmless_of_error (createEntity_of_large given full fits))]
    omega
  have taken := createEntity_of_full given bounded full fits
  cases reallocs : creation.allocations.reallocs with
  | false =>
    rw [reallocs, if_neg Bool.false_ne_true] at taken
    rw [harmless_of_ok taken]
    simp [refused_ne bounded.live]
  | true =>
    rw [reallocs, if_pos rfl] at taken
    cases mallocs : creation.allocations.mallocs with
    | false =>
      rw [mallocs, if_neg Bool.false_ne_true] at taken
      rw [harmless_of_ok taken, grown_eq_iff]
      simp
    | true =>
      rw [mallocs, if_pos rfl] at taken
      by_cases positive : 0 < manager.capacity
      · rw [if_pos positive] at taken
        rw [harmless_of_ok taken]
        simpa [positive] using fits
      · rw [if_neg positive] at taken
        rw [iff_false_left (not_harmless_of_error taken)]
        simp [positive]

theorem harmless_iff (manager : EntityManager Data VTable) (creation : Creation Data VTable) (bounded : manager.Bounded) :
    Harmless manager creation ↔ Spared manager creation := by
  cases given : creation.vtable with
  | none => exact iff_of_true ((harmless_of_ok (createEntity_of_null given)).mpr fun _ => rfl) (.inl given)
  | some vtable =>
    by_cases room : manager.count < manager.capacity
    · refine iff_of_true ?_ (.inr (.inl room))
      have taken := createEntity_of_room given bounded room
      split at taken
      · exact (harmless_of_ok taken).mpr nofun
      · exact (harmless_of_ok taken).mpr fun _ => rfl
    · rw [harmless_of_full_iff given bounded (Nat.le_of_not_lt room), Spared, given]
      simp only [reduceCtorEq, false_or, room]

theorem createEntity_bounded {creation : Creation Data VTable} {next : EntityManager Data VTable}
    {entity : Entity Data VTable} (bounded : manager.Bounded)
    (taken : createEntity manager creation = .ok (next, some entity)) : next.Bounded := by
  cases given : creation.vtable with
  | none => cases (createEntity_of_null given).symm.trans taken
  | some vtable =>
    by_cases room : manager.count < manager.capacity
    · rw [createEntity_of_room given bounded room] at taken
      split at taken
      · cases taken
        exact bounded.add room _
      · cases taken
    · have full := Nat.le_of_not_lt room
      by_cases fits : manager.capacity * 2 < 2 ^ 31
      case neg => cases (createEntity_of_large given full fits).symm.trans taken
      rw [createEntity_of_full given bounded full fits] at taken
      split at taken
      · split at taken
        · split at taken
          · rename_i positive
            cases taken
            exact bounded.grown.add (bounded.grown_room positive) _
          · cases taken
        · cases taken
      · cases taken

theorem harmless_keeps_bounded (manager : EntityManager Data VTable) (creation : Creation Data VTable)
    (next : EntityManager Data VTable) (bounded : manager.Bounded) (harmless : Harmless manager creation)
    (taken : createStep manager creation = .ok next) : next.Bounded := by
  obtain ⟨other, entity, created, unchanged⟩ := harmless
  rw [createStep, created] at taken
  cases taken
  cases entity with
  | none => exact unchanged rfl ▸ bounded
  | some entity => exact createEntity_bounded bounded created

theorem createStep_ok_iff {creation : Creation Data VTable} : (∃ next, createStep manager creation = .ok next) ↔
    ∃ next entity, createEntity manager creation = .ok (next, entity) := by
  rw [createStep, map_succeeds_iff]
  exact Prod.exists

theorem failsSafely_iff_harmless {start : EntityManager Data VTable} {creations : List (Creation Data VTable)}
    (bounded : start.Bounded) : FailsSafely start creations ↔ Along createStep Harmless start creations := by
  constructor
  · rintro ⟨unchanged, -, inside⟩
    refine along_iff_forall.mpr fun front creation back manager whole reached => ?_
    obtain ⟨next, entity, taken⟩ :=
      createStep_ok_iff.mp (along_iff_forall.mp (run_succeeds_iff.mp inside) front creation back manager whole reached)
    refine ⟨next, entity, taken, ?_⟩
    rintro rfl
    exact unchanged front creation back manager next whole reached taken
  · intro along
    refine ⟨?_, ?_, ?_⟩
    · intro front creation back manager next whole reached failed
      obtain ⟨other, entity, taken, unchanged⟩ := along_iff_forall.mp along front creation back manager whole reached
      cases failed.symm.trans taken
      exact unchanged rfl
    · rintro front back manager rfl reached
      exact run_invariant harmless_keeps_bounded bounded (along_append along) reached
    · refine run_succeeds_iff.mpr (along_iff_forall.mpr fun front creation back manager whole reached => ?_)
      obtain ⟨next, entity, taken, -⟩ := along_iff_forall.mp along front creation back manager whole reached
      exact createStep_ok_iff.mpr ⟨next, entity, taken⟩

/-- Failing calls are safe exactly in the runs that fail at no full manager. -/
theorem failsSafely_iff (start : EntityManager Data VTable) (creations : List (Creation Data VTable))
    (bounded : start.Bounded) : FailsSafely start creations ↔ Along createStep Spared start creations := by
  rw [failsSafely_iff_harmless bounded]
  exact along_congr harmless_iff harmless_keeps_bounded bounded creations

def fullManager : EntityManager Unit Unit := ⟨1, 1, [some ⟨(), 1, ()⟩], true⟩

def unreallocated : Creation Unit Unit := ⟨(), some (), ⟨false, true⟩⟩

theorem fullManager_failsSafely_iff : FailsSafely fullManager [granted ((), ()), unreallocated] ↔
    Along createStep Spared fullManager [granted ((), ()), unreallocated] :=
  failsSafely_iff fullManager [granted ((), ()), unreallocated] ⟨by decide, by decide, rfl⟩

/-- The array is not reallocated, and the next entity is stored behind it. -/
theorem unreallocated_not_failsSafely :
    createEntity fullManager unreallocated = .ok ({ fullManager with capacity := 2 }, none) ∧
      run createStep fullManager [unreallocated, granted ((), ())] = .error .outOfBounds ∧
      ¬ FailsSafely fullManager [unreallocated, granted ((), ())] := by
  have failed : run createStep fullManager [unreallocated, granted ((), ())] = .error .outOfBounds := by decide
  refine ⟨by decide, failed, fun safe => ?_⟩
  obtain ⟨final, reached⟩ := safe.inside
  cases failed.symm.trans reached

section
variable {K : Type} {view : Data → EntityData K} {known : Engine.EntityManager K}

def Entity.plain (view : Data → EntityData K) (entity : Entity Data VTable) : Engine.Entity K :=
  ⟨view entity.data, entity.active ≠ 0⟩

/-- The manager of the engine is this one without its array, and its data are seen so. -/
structure Represents (view : Data → EntityData K) (manager : EntityManager Data VTable)
    (known : Engine.EntityManager K) : Prop where
  has : ∃ entities, manager.Has entities ∧ known.entities = entities.map (Entity.plain view)
  capacity : known.capacity = manager.capacity

theorem createEntityManager_represents (capacity : Nat) :
    Represents view (createEntityManager capacity : EntityManager Data VTable) (Engine.createEntityManager capacity) :=
  ⟨⟨[], createEntityManager_has capacity, rfl⟩, rfl⟩

theorem Represents.count (represents : Represents view manager known) : known.count = manager.count := by
  obtain ⟨⟨entities, has, same⟩, -⟩ := represents
  rw [Engine.EntityManager.count, same, List.length_map, has.count]

/-- A granted call does to the array what the engine's call does to its list, and faults where that
does, or the capacity leaves the range of `int`. -/
theorem createEntity_refines (represents : Represents view manager known) (object : Data × VTable) :
    createStep manager (granted object) = .error .signedOverflow ∨
    (createStep manager (granted object) = .error .outOfBounds ∧
      Engine.createEntity known (view object.1) = .error .outOfBounds) ∨
    ∃ next after, createStep manager (granted object) = .ok next ∧ Engine.createEntity known (view object.1) = .ok after ∧
      Represents view next after := by
  have count := represents.count
  obtain ⟨⟨entities, has, same⟩, capacity⟩ := represents
  have longer : known.entities ++ [⟨view object.1, true⟩] = (entities ++ [created object]).map (Entity.plain view) := by
    rw [same, List.map_append]
    rfl
  rw [createStep_granted has object, Engine.createEntity, count, capacity]
  by_cases room : manager.count < manager.capacity
  · rw [if_pos room, if_neg (Nat.not_le_of_lt room), if_pos room]
    exact .inr (.inr ⟨_, _, rfl, rfl, ⟨_, has.add room _, longer⟩, rfl⟩)
  · rw [if_neg room, if_pos (Nat.le_of_not_lt room)]
    by_cases fits : manager.capacity * 2 < 2 ^ 31
    case neg => exact .inl (if_neg fits)
    rw [if_pos fits]
    by_cases positive : 0 < manager.capacity
    · have more : manager.count < manager.capacity * 2 := has.bounded.grown_room positive
      rw [if_pos positive, if_pos more]
      exact .inr (.inr ⟨_, _, rfl, rfl, ⟨_, has.grown.add more _, longer⟩, rfl⟩)
    · rw [if_neg positive, if_neg (by omega)]
      exact .inr (.inl ⟨rfl, rfl⟩)

theorem run_refines (represents : Represents view manager known) (objects : List (Data × VTable)) :
    run createStep manager (objects.map granted) = .error .signedOverflow ∨
    (run createStep manager (objects.map granted) = .error .outOfBounds ∧
      run Engine.createEntity known (objects.map fun object => view object.1) = .error .outOfBounds) ∨
    ∃ final last, run createStep manager (objects.map granted) = .ok final ∧
      run Engine.createEntity known (objects.map fun object => view object.1) = .ok last ∧ Represents view final last := by
  induction objects generalizing manager known with
  | nil => exact .inr (.inr ⟨manager, known, rfl, rfl, represents⟩)
  | cons object rest ih =>
    simp only [List.map_cons, run]
    rcases createEntity_refines represents object with large | ⟨outside, also⟩ | ⟨next, after, taken, also, holds⟩
    · exact .inl (by rw [large])
    · exact .inr (.inl ⟨by rw [outside], by rw [also]⟩)
    · rw [taken, also]
      exact ih holds

end

end Trigger.Engine.Growth
