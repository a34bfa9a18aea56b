import Trigger.Engine.Growth
import Trigger.Foundation.Loops

/-! The passes over the entities, whose methods may change the entities and create more
while the loop runs.
-/

set_option autoImplicit false

namespace Trigger.Engine.Growth
open Foundation

/-- What a method does to the entities, one step after the other. -/
inductive Effect (Data VTable : Type) where
  | setData (index : Nat) (data : Data)
  | setActive (index : Nat) (active : Int)
  | create (data : Data) (vtable : Option VTable)
  deriving DecidableEq

/-- The entities and whatever else a method may read and write. -/
structure EngineContext (Data VTable Outside : Type) where
  manager : EntityManager Data VTable
  outside : Outside
  deriving DecidableEq

variable {Data VTable Outside : Type}

abbrev Method (Data VTable Outside : Type) :=
  Data → EngineContext Data VTable Outside → List (Effect Data VTable) × Outside

/-- Any method may be missing; `destroy` is given the data alone. -/
structure ObjectVTable (Data VTable Outside : Type) where
  update : Option (Method Data VTable Outside)
  draw : Option (Method Data VTable Outside)
  destroy : Option (Data → Outside → Outside)

def EntityManager.modify (manager : EntityManager Data VTable) (index : Nat)
    (change : Entity Data VTable → Entity Data VTable) : EntityManager Data VTable :=
  { manager with entities := List.modify manager.entities index (Option.map change) }

/-- The allocations of a method succeed. -/
def applyEffect (manager : EntityManager Data VTable) : Effect Data VTable → Except Fault (EntityManager Data VTable)
  | .setData index data => .ok (manager.modify index fun entity => { entity with data })
  | .setActive index active => .ok (manager.modify index fun entity => { entity with active })
  | .create data vtable => createStep manager ⟨data, vtable, ⟨true, true⟩⟩

def callMethod (method : Method Data VTable Outside) (data : Data) (engine : EngineContext Data VTable Outside) :
    Except Fault (EngineContext Data VTable Outside) := do
  let (effects, outside) := method data engine
  return ⟨← run applyEffect engine.manager effects, outside⟩

/-- The loop variable, the engine, and the calls so far with the index and the data of each. -/
structure PassState (Data VTable Outside : Type) where
  index : Nat
  engine : EngineContext Data VTable Outside
  calls : List (Nat × Data)

def PassState.start (engine : EngineContext Data VTable Outside) : PassState Data VTable Outside := ⟨0, engine, []⟩

section
variable (table : VTable → ObjectVTable Data VTable Outside)
  (select : ObjectVTable Data VTable Outside → Option (Method Data VTable Outside))

/-- The method that the loop calls for an entity. -/
def selected (entity : Entity Data VTable) : Option (Method Data VTable Outside) :=
  if entity.active ≠ 0 then select (table entity.vtable) else none

def visitEntity (state : PassState Data VTable Outside) (entity : Entity Data VTable) :
    Except Fault (PassState Data VTable Outside) :=
  match selected table select entity with
  | some method => do
    let engine ← callMethod method entity.data state.engine
    return ⟨state.index + 1, engine, state.calls ++ [(state.index, entity.data)]⟩
  | none => .ok { state with index := state.index + 1 }

/-- One round of the loop; the count and the array are read again in each. -/
def passBody (state : PassState Data VTable Outside) :
    Except Fault (Pass (PassState Data VTable Outside) (PassState Data VTable Outside)) :=
  if state.index < state.engine.manager.count then do
    let entity ← state.engine.manager.entities.load state.index
    (visitEntity table select state entity).map .goOn
  else .ok (.leave state)

end

def updateAllEntities (table : VTable → ObjectVTable Data VTable Outside) :=
  passBody table ObjectVTable.update

def drawAllEntities (table : VTable → ObjectVTable Data VTable Outside) :=
  passBody table ObjectVTable.draw

/-- One round of `destroy_entity`: what it changes, and the calls so far. -/
def destroyRound (table : VTable → ObjectVTable Data VTable Outside) (manager : EntityManager Data VTable)
    (state : Outside × List (Nat × Data)) (index : Nat) : Except Fault (Outside × List (Nat × Data)) := do
  let entity ← manager.entities.load index
  match (table entity.vtable).destroy with
  | some destroy => return (destroy entity.data state.1, state.2 ++ [(index, entity.data)])
  | none => return state

def destroyEntity (table : VTable → ObjectVTable Data VTable Outside) (engine : EngineContext Data VTable Outside) :
    Except Fault (Outside × List (Nat × Data)) :=
  run (destroyRound table engine.manager) (engine.outside, []) (List.range engine.manager.count)

def EntityManager.Sound (manager : EntityManager Data VTable) : Prop := ∃ entities, manager.Has entities

variable {manager : EntityManager Data VTable}

theorem EntityManager.Has.modify {entities : List (Entity Data VTable)} (has : manager.Has entities) (index : Nat)
    (change : Entity Data VTable → Entity Data VTable) :
    (manager.modify index change).Has (entities.modify index change) where
  count := by rw [List.length_modify]; exact has.count
  bounded := ⟨has.bounded.count, by rw [EntityManager.modify, List.length_modify]; exact has.bounded.capacity,
    has.bounded.live⟩
  hold := has.hold.modify index change

theorem EntityManager.Sound.modify (sound : manager.Sound) (index : Nat)
    (change : Entity Data VTable → Entity Data VTable) : (manager.modify index change).Sound := by
  obtain ⟨entities, has⟩ := sound
  exact ⟨_, has.modify index change⟩

theorem applyEffect_keeps (sound : manager.Sound) (some : 0 < manager.count) (effect : Effect Data VTable) :
    applyEffect manager effect = .error .signedOverflow ∨
      ∃ next, applyEffect manager effect = .ok next ∧ next.Sound ∧ manager.count ≤ next.count := by
  cases effect with
  | setData index data => exact .inr ⟨_, rfl, sound.modify index _, Nat.le_refl _⟩
  | setActive index active => exact .inr ⟨_, rfl, sound.modify index _, Nat.le_refl _⟩
  | create data vtable =>
    cases vtable with
    | none => exact .inr ⟨manager, rfl, sound, Nat.le_refl _⟩
    | some vtable =>
      obtain ⟨entities, has⟩ := sound
      have atMost := has.bounded.count
      have called := createStep_granted has (data, vtable)
      split at called
      · rename_i room
        exact .inr ⟨_, called, ⟨_, has.add room _⟩, Nat.le_succ _⟩
      · split at called
        · rw [if_pos (by omega)] at called
          exact .inr ⟨_, called, ⟨_, has.grown.add (has.bounded.grown_room (by omega)) _⟩, Nat.le_succ _⟩
        · exact .inl called

theorem run_applyEffect_keeps (sound : manager.Sound) (some : 0 < manager.count) (effects : List (Effect Data VTable)) :
    run applyEffect manager effects = .error .signedOverflow ∨
      ∃ next, run applyEffect manager effects = .ok next ∧ next.Sound ∧ manager.count ≤ next.count := by
  induction effects generalizing manager with
  | nil => exact .inr ⟨manager, rfl, sound, Nat.le_refl _⟩
  | cons effect rest ih =>
    rcases applyEffect_keeps sound some effect with failed | ⟨next, taken, soundNext, grows⟩
    · exact .inl (by rw [run, failed])
    · rw [run_cons_of_ok taken]
      rcases ih soundNext (Nat.lt_of_lt_of_le some grows) with failed | ⟨last, reached, soundLast, more⟩
      · exact .inl failed
      · exact .inr ⟨last, reached, soundLast, Nat.le_trans grows more⟩

theorem callMethod_keeps {engine : EngineContext Data VTable Outside} (sound : engine.manager.Sound)
    (some : 0 < engine.manager.count) (method : Method Data VTable Outside) (data : Data) :
    callMethod method data engine = .error .signedOverflow ∨
      ∃ next, callMethod method data engine = .ok next ∧ next.manager.Sound ∧
        engine.manager.count ≤ next.manager.count := by
  rw [callMethod]
  cases method data engine with
  | mk effects outside =>
    dsimp only
    rcases run_applyEffect_keeps sound some effects with failed | ⟨next, reached, soundNext, grows⟩
    · exact .inl (by rw [failed]; rfl)
    · exact .inr ⟨⟨next, outside⟩, by rw [reached]; rfl, soundNext, grows⟩

section
variable {table : VTable → ObjectVTable Data VTable Outside}
  {select : ObjectVTable Data VTable Outside → Option (Method Data VTable Outside)}
  {state next : PassState Data VTable Outside}

def callOf (table : VTable → ObjectVTable Data VTable Outside)
    (select : ObjectVTable Data VTable Outside → Option (Method Data VTable Outside)) (index : Nat)
    (entity : Entity Data VTable) : List (Nat × Data) :=
  if (selected table select entity).isSome then [(index, entity.data)] else []

/-- A logged call, made again at the entity of its index. -/
def replayCall (table : VTable → ObjectVTable Data VTable Outside)
    (select : ObjectVTable Data VTable Outside → Option (Method Data VTable Outside))
    (engine : EngineContext Data VTable Outside) (call : Nat × Data) :
    Except Fault (EngineContext Data VTable Outside) := do
  let entity ← engine.manager.entities.load call.1
  match select (table entity.vtable) with
  | some method => callMethod method call.2 engine
  | none => .ok engine

theorem select_of_selected {entity : Entity Data VTable} {method : Method Data VTable Outside}
    (chosen : selected table select entity = some method) : select (table entity.vtable) = some method := by
  rw [selected] at chosen
  split at chosen
  · exact chosen
  · cases chosen

theorem visitEntity_ok {entity : Entity Data VTable} (loaded : state.engine.manager.entities.load state.index = .ok entity)
    (visited : visitEntity table select state entity = .ok next) :
    next.index = state.index + 1 ∧ next.calls = state.calls ++ callOf table select state.index entity ∧
      run (replayCall table select) state.engine (callOf table select state.index entity) = .ok next.engine := by
  rw [visitEntity] at visited
  split at visited
  · rename_i method chosen
    obtain ⟨engine, called, same⟩ := bind_ok_iff.mp visited
    cases same
    have again : replayCall table select state.engine (state.index, entity.data) = .ok engine := by
      rw [replayCall, loaded]
      change (match select (table entity.vtable) with
        | some method => callMethod method entity.data state.engine
        | none => .ok state.engine) = .ok engine
      rw [select_of_selected chosen]
      exact called
    rw [callOf, chosen]
    exact ⟨rfl, rfl, run_cons_of_ok again []⟩
  · rename_i chosen
    cases visited
    rw [callOf, chosen]
    exact ⟨rfl, (List.append_nil _).symm, rfl⟩

theorem visitEntity_keeps (sound : state.engine.manager.Sound) (some : 0 < state.engine.manager.count)
    (entity : Entity Data VTable) :
    visitEntity table select state entity = .error .signedOverflow ∨
      ∃ next, visitEntity table select state entity = .ok next ∧ next.engine.manager.Sound ∧
        state.engine.manager.count ≤ next.engine.manager.count := by
  rw [visitEntity]
  split
  · rename_i method _
    rcases callMethod_keeps sound some method entity.data with failed | ⟨engine, called, kept⟩
    · exact .inl (by rw [failed]; rfl)
    · exact .inr ⟨_, by rw [called]; rfl, kept⟩
  · exact .inr ⟨_, rfl, sound, Nat.le_refl _⟩

theorem passBody_goOn (taken : passBody table select state = .ok (.goOn next)) :
    state.index < state.engine.manager.count ∧ next.index = state.index + 1 ∧
      ∃ entity, state.engine.manager.entities.load state.index = .ok entity ∧
        next.calls = state.calls ++ callOf table select state.index entity ∧
        run (replayCall table select) state.engine (callOf table select state.index entity) = .ok next.engine := by
  rw [passBody] at taken
  split at taken
  · rename_i inside
    obtain ⟨entity, loaded, rest⟩ := bind_ok_iff.mp taken
    obtain ⟨visited, there, same⟩ := map_ok_iff.mp rest
    cases same
    obtain ⟨index, calls⟩ := visitEntity_ok loaded there
    exact ⟨inside, index, entity, loaded, calls⟩
  · cases taken

theorem passBody_of_outside (outside : ¬ state.index < state.engine.manager.count) :
    passBody table select state = .ok (.leave state) :=
  if_neg outside

/-- Inside the array a round faults only where the capacity leaves its range. -/
theorem passBody_of_inside (sound : state.engine.manager.Sound) (inside : state.index < state.engine.manager.count) :
    passBody table select state = .error .signedOverflow ∨
      ∃ next, passBody table select state = .ok (.goOn next) ∧ next.engine.manager.Sound ∧
        state.engine.manager.count ≤ next.engine.manager.count := by
  have ⟨entities, has⟩ := sound
  have known : state.index < entities.length := has.count ▸ inside
  have loaded := has.hold.load (List.getElem?_eq_getElem known)
  have outcome : visitEntity table select state entities[state.index] = .error .signedOverflow ∨ _ :=
    visitEntity_keeps sound (Nat.zero_lt_of_lt inside) entities[state.index]
  have body : passBody table select state = (visitEntity table select state entities[state.index]).map .goOn := by
    rw [passBody, if_pos inside, loaded]
    rfl
  rw [body]
  rcases outcome with failed | ⟨next, visited, kept⟩
  · exact .inl (by rw [failed]; rfl)
  · exact .inr ⟨next, by rw [visited]; rfl, kept⟩

/-- The methods create finitely many entities, and the capacity can be doubled for each. -/
structure CreatesFinitely (table : VTable → ObjectVTable Data VTable Outside)
    (select : ObjectVTable Data VTable Outside → Option (Method Data VTable Outside))
    (start : PassState Data VTable Outside) : Prop where
  bounded : ∃ bound, ∀ state, Reaches (passBody table select) start state → state.engine.manager.count ≤ bound
  grows : ∀ state, Reaches (passBody table select) start state → passBody table select state ≠ .error .signedOverflow

/-- Every index is reached once, also those of new entities, and there the method is called
if the entity is active and has it; the calls lead from the first engine to the last. -/
structure VisitsOnce (table : VTable → ObjectVTable Data VTable Outside)
    (select : ObjectVTable Data VTable Outside → Option (Method Data VTable Outside))
    (start final : PassState Data VTable Outside) : Prop where
  ordered : (final.calls.map Prod.fst).Pairwise (· < ·)
  covers : ∀ index < final.engine.manager.count,
    ∃! state, Reaches (passBody table select) start state ∧ state.index = index
  calls : ∀ state, Reaches (passBody table select) start state → state.index < final.engine.manager.count →
    ∀ data, (state.index, data) ∈ final.calls ↔ ∃ entity, state.engine.manager.entities.load state.index = .ok entity ∧
      entity.active ≠ 0 ∧ (select (table entity.vtable)).isSome ∧ entity.data = data
  inside : ∀ call ∈ final.calls, call.1 < final.engine.manager.count
  kept : start.engine.manager.count ≤ final.engine.manager.count
  replays : run (replayCall table select) start.engine final.calls = .ok final.engine

structure Underway (table : VTable → ObjectVTable Data VTable Outside)
    (select : ObjectVTable Data VTable Outside → Option (Method Data VTable Outside))
    (start state : PassState Data VTable Outside) : Prop where
  sound : state.engine.manager.Sound
  inside : state.index ≤ state.engine.manager.count
  kept : start.engine.manager.count ≤ state.engine.manager.count
  ordered : (state.calls.map Prod.fst).Pairwise (· < ·)
  below : ∀ call ∈ state.calls, call.1 < state.index
  replays : run (replayCall table select) start.engine state.calls = .ok state.engine

variable {start final : PassState Data VTable Outside}

theorem callOf_index {index : Nat} {entity : Entity Data VTable} {call : Nat × Data}
    (member : call ∈ callOf table select index entity) : call.1 = index := by
  rw [callOf] at member
  split at member
  · rw [List.mem_singleton.mp member]
  · cases member

theorem mem_callOf_iff {index : Nat} {entity : Entity Data VTable} {data : Data} :
    (index, data) ∈ callOf table select index entity ↔
      entity.active ≠ 0 ∧ (select (table entity.vtable)).isSome ∧ entity.data = data := by
  rw [callOf, selected]
  by_cases active : entity.active ≠ 0
  · rw [if_pos active]
    cases select (table entity.vtable) <;> simp [active, eq_comm]
  · rw [if_neg active]
    simp [active]

theorem Underway.step (underway : Underway table select start state) (taken : passBody table select state = .ok (.goOn next)) :
    Underway table select start next := by
  obtain ⟨inside, index, entity, -, calls, replays⟩ := passBody_goOn taken
  have round : passBody table select state = .error .signedOverflow ∨ _ := passBody_of_inside underway.sound inside
  rcases round with failed | ⟨other, also, sound, grows⟩
  · cases failed.symm.trans taken
  · cases taken.symm.trans also
    refine ⟨sound, by omega, Nat.le_trans underway.kept grows, ?_, ?_, ?_⟩
    · rw [calls, List.map_append, List.pairwise_append]
      refine ⟨underway.ordered, ?_, ?_⟩
      · rw [callOf]
        split <;> simp
      · rintro _ before _ here
        obtain ⟨call, member, rfl⟩ := List.mem_map.mp before
        obtain ⟨own, added, rfl⟩ := List.mem_map.mp here
        rw [callOf_index added]
        exact underway.below call member
    · intro call member
      rw [calls, List.mem_append] at member
      rcases member with before | added
      · have lower := underway.below call before
        omega
      · rw [callOf_index added]
        omega
    · rw [calls, run_append, underway.replays]
      exact replays

theorem Reaches.underway (sound : start.engine.manager.Sound) (fresh : start.index = 0) (quiet : start.calls = [])
    (reached : Reaches (passBody table select) start state) : Underway table select start state := by
  refine reached.invariant (Underway table select start) (fun _ _ underway taken => underway.step taken) ⟨sound, ?_, ?_, ?_, ?_, ?_⟩
  · rw [fresh]
    exact Nat.zero_le _
  · exact Nat.le_refl _
  · rw [quiet]
    exact List.Pairwise.nil
  · rw [quiet]
    exact fun _ member => absurd member List.not_mem_nil
  · rw [quiet]
    rfl

theorem passBody_counts (state next : PassState Data VTable Outside)
    (taken : passBody table select state = .ok (.goOn next)) : next.index = state.index + 1 :=
  (passBody_goOn taken).2.1

theorem Reaches.calls_extend (reached : Reaches (passBody table select) start state) :
    ∃ later, state.calls = start.calls ++ later ∧ ∀ call ∈ later, start.index ≤ call.1 := by
  induction reached with
  | refl => exact ⟨[], (List.append_nil _).symm, fun _ member => absurd member List.not_mem_nil⟩
  | @tail before last earlier taken ih =>
    obtain ⟨later, same, above⟩ := ih
    obtain ⟨-, -, entity, -, calls, -⟩ := passBody_goOn taken
    have passed := Reaches.counter_le passBody_counts earlier
    refine ⟨later ++ callOf table select before.index entity, by rw [calls, same, List.append_assoc], ?_⟩
    intro call member
    rcases List.mem_append.mp member with old | added
    · exact above call old
    · rw [callOf_index added]
      exact passed

theorem Reaches.mem_calls_iff (underway : Underway table select start state)
    (later : Reaches (passBody table select) state final) (behind : state.index < final.index) (data : Data) :
    (state.index, data) ∈ final.calls ↔ ∃ entity, state.engine.manager.entities.load state.index = .ok entity ∧
      entity.active ≠ 0 ∧ (select (table entity.vtable)).isSome ∧ entity.data = data := by
  rcases Relation.ReflTransGen.cases_head later with rfl | ⟨next, taken, rest⟩
  · exact absurd behind (Nat.lt_irrefl _)
  · obtain ⟨-, index, entity, loaded, calls, -⟩ := passBody_goOn taken
    obtain ⟨more, same, above⟩ := Reaches.calls_extend rest
    have old : (state.index, data) ∉ state.calls := fun member =>
      absurd (underway.below _ member) (Nat.lt_irrefl _)
    have new : (state.index, data) ∉ more := fun member => by
      have late := above _ member
      rw [index] at late
      exact absurd late (Nat.not_succ_le_self _)
    rw [same, calls, List.mem_append, List.mem_append, or_iff_right old, or_iff_left new, mem_callOf_iff]
    constructor
    · exact fun called => ⟨entity, loaded, called⟩
    · rintro ⟨other, also, called⟩
      cases loaded.symm.trans also
      exact called

theorem pass_returns (sound : start.engine.manager.Sound) (fresh : start.index = 0) (quiet : start.calls = [])
    (finite : CreatesFinitely table select start) :
    ∃ final, Reaches (passBody table select) start final ∧ ¬ final.index < final.engine.manager.count := by
  obtain ⟨bound, bounded⟩ := finite.bounded
  have progress (state : PassState Data VTable Outside) (here : Reaches (passBody table select) start state) :
      ¬ state.index < state.engine.manager.count ∨ ∃ next, passBody table select state = .ok (.goOn next) ∧
        Reaches (passBody table select) start next ∧ bound - next.index < bound - state.index := by
    by_cases inside : state.index < state.engine.manager.count
    · have underway := Reaches.underway sound fresh quiet here
      rcases passBody_of_inside underway.sound inside with failed | ⟨next, taken, -, -⟩
      · exact absurd failed (finite.grows state here)
      · have one := passBody_counts state next taken
        have atMost := bounded state here
        exact .inr ⟨next, taken, here.next taken, by omega⟩
    · exact .inl inside
  obtain ⟨last, reached, -, left⟩ := Reaches.exit (fun state => Reaches (passBody table select) start state)
    (fun state => ¬ state.index < state.engine.manager.count) (fun state => bound - state.index) progress (.refl start)
  exact ⟨last, reached, left⟩

/-- A pass ends, and visits every entity once. -/
theorem pass_visits (sound : start.engine.manager.Sound) (fresh : start.index = 0) (quiet : start.calls = [])
    (finite : CreatesFinitely table select start) :
    ∃ final, Returns (passBody table select) start final ∧ VisitsOnce table select start final := by
  obtain ⟨final, reached, left⟩ := pass_returns sound fresh quiet finite
  have underway := Reaches.underway sound fresh quiet reached
  have atEnd : final.index = final.engine.manager.count := Nat.le_antisymm underway.inside (Nat.le_of_not_lt left)
  refine ⟨final, ⟨final, reached, passBody_of_outside left⟩, underway.ordered, ?_, ?_, ?_, underway.kept, underway.replays⟩
  · intro index inside
    obtain ⟨middle, there, -, same⟩ := Reaches.between passBody_counts reached (by omega : start.index ≤ index) (by omega)
    refine ⟨middle, ⟨there, same⟩, ?_⟩
    rintro other ⟨also, equal⟩
    exact Reaches.eq_of_counter passBody_counts also there (equal.trans same.symm)
  · intro state there inside data
    have behind : state.index < final.index := by omega
    rcases Reaches.linear there reached with later | earlier
    · exact Reaches.mem_calls_iff (Reaches.underway sound fresh quiet there) later behind data
    · exact absurd (Reaches.counter_le passBody_counts earlier) (Nat.not_le_of_lt behind)
  · intro call member
    rw [← atEnd]
    exact underway.below call member

end

/-! ## destroy_entity -/

/-- A logged call of `destroy`, made again at the entity of its index. -/
def replayDestroy (table : VTable → ObjectVTable Data VTable Outside) (manager : EntityManager Data VTable)
    (outside : Outside) (call : Nat × Data) : Except Fault Outside := do
  let entity ← manager.entities.load call.1
  match (table entity.vtable).destroy with
  | some destroy => return destroy call.2 outside
  | none => return outside

/-- Each entity with a `destroy` is destroyed once, in order, active or not, and nothing else
changes what is outside. -/
structure DestroysOnce (table : VTable → ObjectVTable Data VTable Outside) (engine : EngineContext Data VTable Outside)
    (outside : Outside) (made : List (Nat × Data)) : Prop where
  ordered : (made.map Prod.fst).Pairwise (· < ·)
  calls : ∀ index data, (index, data) ∈ made ↔ index < engine.manager.count ∧
    ∃ entity, engine.manager.entities.load index = .ok entity ∧ (table entity.vtable).destroy.isSome ∧ entity.data = data
  replays : run (replayDestroy table engine.manager) engine.outside made = .ok outside

theorem destroyRound_of_loaded (table : VTable → ObjectVTable Data VTable Outside) (state : Outside × List (Nat × Data))
    {index : Nat} {entity : Entity Data VTable} (loaded : manager.entities.load index = .ok entity) :
    ∃ outside, destroyRound table manager state index = .ok (outside, state.2 ++
        if (table entity.vtable).destroy.isSome then [(index, entity.data)] else []) ∧
      run (replayDestroy table manager) state.1
        (if (table entity.vtable).destroy.isSome then [(index, entity.data)] else []) = .ok outside := by
  rw [destroyRound, loaded]
  cases found : (table entity.vtable).destroy with
  | none => exact ⟨state.1, by simp [Bind.bind, Except.bind, pure, Except.pure, found], rfl⟩
  | some destroy =>
    have again : replayDestroy table manager state.1 (index, entity.data) = .ok (destroy entity.data state.1) := by
      simp [replayDestroy, loaded, found, Bind.bind, Except.bind, pure, Except.pure]
    exact ⟨destroy entity.data state.1, by simp [Bind.bind, Except.bind, pure, Except.pure, found],
      run_cons_of_ok again []⟩

theorem run_destroyRound (table : VTable → ObjectVTable Data VTable Outside) (outside : Outside)
    {entities : List (Entity Data VTable)} (has : manager.Has entities) (rounds : Nat) (few : rounds ≤ manager.count) :
    ∃ outside' calls, run (destroyRound table manager) (outside, []) (List.range rounds) = .ok (outside', calls) ∧
      (calls.map Prod.fst).Pairwise (· < ·) ∧ (∀ index data, (index, data) ∈ calls ↔ index < rounds ∧
        ∃ entity, manager.entities.load index = .ok entity ∧ (table entity.vtable).destroy.isSome ∧ entity.data = data) ∧
      run (replayDestroy table manager) outside calls = .ok outside' := by
  induction rounds with
  | zero => exact ⟨outside, [], rfl, List.Pairwise.nil, by simp, rfl⟩
  | succ last ih =>
    obtain ⟨before, calls, reached, ordered, exactly, replays⟩ := ih (Nat.le_of_succ_le few)
    have known : last < entities.length := by
      have same := has.count
      omega
    have loaded := has.hold.load (List.getElem?_eq_getElem known)
    obtain ⟨after, taken, again⟩ := destroyRound_of_loaded table (before, calls) loaded
    rw [List.range_succ]
    refine ⟨after, _, run_concat_of_ok reached taken, ?_, ?_, ?_⟩
    · rw [List.map_append, List.pairwise_append]
      refine ⟨ordered, by split <;> simp, ?_⟩
      rintro _ old _ new
      obtain ⟨⟨index, data⟩, member, rfl⟩ := List.mem_map.mp old
      have lower := ((exactly index data).mp member).1
      split at new
      · rw [List.map_singleton, List.mem_singleton] at new
        omega
      · cases new
    · intro index data
      rw [List.mem_append, exactly]
      by_cases here : index = last
      · subst here
        simp only [loaded, Nat.lt_irrefl, false_and, false_or, Nat.lt_succ_self, true_and, Except.ok.injEq, exists_eq_left']
        split
        · rename_i has
          simp [has, eq_comm]
        · rename_i lacks
          simp [lacks]
      · have other : index < last ↔ index < last + 1 := by omega
        rw [other]
        split <;> simp [here]
    · rw [run_append, replays]
      exact again

theorem destroyEntity_destroys (table : VTable → ObjectVTable Data VTable Outside)
    (engine : EngineContext Data VTable Outside) (sound : engine.manager.Sound) :
    ∃ outside calls, destroyEntity table engine = .ok (outside, calls) ∧ DestroysOnce table engine outside calls := by
  obtain ⟨entities, has⟩ := sound
  obtain ⟨outside, calls, reached, ordered, exactly, replays⟩ :=
    run_destroyRound table engine.outside has engine.manager.count (Nat.le_refl _)
  exact ⟨outside, calls, reached, ordered, exactly, replays⟩

/-- The passes of a frame visit every entity once and call the active ones, while the
entities change and new ones appear; the last pass destroys every one. -/
theorem passes_visit_once (table : VTable → ObjectVTable Data VTable Outside)
    (engine : EngineContext Data VTable Outside) (sound : engine.manager.Sound) :
    (CreatesFinitely table ObjectVTable.update (.start engine) →
      ∃ final, Returns (updateAllEntities table) (.start engine) final ∧
        VisitsOnce table ObjectVTable.update (.start engine) final) ∧
    (CreatesFinitely table ObjectVTable.draw (.start engine) →
      ∃ final, Returns (drawAllEntities table) (.start engine) final ∧
        VisitsOnce table ObjectVTable.draw (.start engine) final) ∧
    ∃ outside calls, destroyEntity table engine = .ok (outside, calls) ∧ DestroysOnce table engine outside calls :=
  ⟨pass_visits sound rfl rfl, pass_visits sound rfl rfl, destroyEntity_destroys table engine sound⟩

def spawningTable (_ : Unit) : ObjectVTable Nat Unit Nat where
  update := some fun data engine => (if data = 0 then [.create 1 (some ())] else [], engine.outside + 1)
  draw := none
  destroy := some fun _ outside => outside + 1

def spawningEngine : EngineContext Nat Unit Nat := ⟨⟨1, 1, [some ⟨0, 1, ()⟩], true⟩, 0⟩

/-- The new entity is updated in the pass in which it was created. -/
theorem spawningEngine_visited : (∃ final, Returns (updateAllEntities spawningTable) (.start spawningEngine) final ∧
      VisitsOnce spawningTable ObjectVTable.update (.start spawningEngine) final) ∧
    (∃ final, Returns (drawAllEntities spawningTable) (.start spawningEngine) final ∧
      VisitsOnce spawningTable ObjectVTable.draw (.start spawningEngine) final) ∧
    ∃ outside calls, destroyEntity spawningTable spawningEngine = .ok (outside, calls) ∧
      DestroysOnce spawningTable spawningEngine outside calls := by
  have sound : spawningEngine.manager.Sound := ⟨[⟨0, 1, ()⟩], rfl, ⟨by decide, by decide, rfl⟩, ⟨[], rfl⟩⟩
  obtain ⟨update, draw, destroy⟩ := passes_visit_once spawningTable spawningEngine sound
  let two : EntityManager Nat Unit := ⟨2, 2, [some ⟨0, 1, ()⟩, some ⟨1, 1, ()⟩], true⟩
  have updates (state : PassState Nat Unit Nat)
      (reached : Reaches (passBody spawningTable ObjectVTable.update) (.start spawningEngine) state) :
      state = .start spawningEngine ∨ state = ⟨1, ⟨two, 1⟩, [(0, 0)]⟩ ∨ state = ⟨2, ⟨two, 2⟩, [(0, 0), (1, 1)]⟩ := by
    refine reached.invariant (fun state => state = .start spawningEngine ∨ state = ⟨1, ⟨two, 1⟩, [(0, 0)]⟩ ∨
      state = ⟨2, ⟨two, 2⟩, [(0, 0), (1, 1)]⟩) ?_ (.inl rfl)
    rintro state next (rfl | rfl | rfl) taken
    · cases taken
      exact .inr (.inl rfl)
    · cases taken
      exact .inr (.inr rfl)
    · cases taken
  have draws (state : PassState Nat Unit Nat)
      (reached : Reaches (passBody spawningTable ObjectVTable.draw) (.start spawningEngine) state) :
      state = .start spawningEngine ∨ state = ⟨1, spawningEngine, []⟩ := by
    refine reached.invariant (fun state => state = .start spawningEngine ∨ state = ⟨1, spawningEngine, []⟩) ?_ (.inl rfl)
    rintro state next (rfl | rfl) taken
    · cases taken
      exact .inr rfl
    · cases taken
  refine ⟨update ⟨⟨2, ?_⟩, ?_⟩, draw ⟨⟨1, ?_⟩, ?_⟩, destroy⟩
  · intro state reached
    rcases updates state reached with rfl | rfl | rfl <;> decide
  · intro state reached
    rcases updates state reached with rfl | rfl | rfl <;> exact nofun
  · intro state reached
    rcases draws state reached with rfl | rfl <;> decide
  · intro state reached
    rcases draws state reached with rfl | rfl <;> exact nofun

end Trigger.Engine.Growth
