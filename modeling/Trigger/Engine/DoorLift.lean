import Trigger.Engine.NonPenetration
import Mathlib.Data.List.Induction
import Mathlib.Tactic.Linarith
import Mathlib.Tactic.NormNum

/-! The doors of a level while messages and ticks interleave.

A message sets the state of one door and a tick lifts the open ones by a quarter
pixel; after any interleaving every door is where its messages and ticks put it, in any
arithmetic in which the quarters can be told.
-/

set_option autoImplicit false

namespace Trigger.Engine
open Foundation Config

def stateFor (doorId : Int) : WorldEvent → Option Int
  | .tick _ => none
  | .doorMessage n state => if n = doorId then some state else none

/-- The state carried by the last message for the door, zero without one. -/
def lastState (doorId : Int) (events : List WorldEvent) : Int :=
  (events.filterMap (stateFor doorId)).getLast?.getD 0

/-- The event at this position is a tick at which the door is not closed. -/
def OpenTick (doorId : Int) (events : List WorldEvent) (k : Nat) : Prop :=
  (∃ event ∈ events[k]?, ∃ keys, event = .tick keys) ∧ lastState doorId (events.take k) ≠ 0

instance (event : WorldEvent) : Decidable (∃ keys, event = .tick keys) :=
  match event with
  | .tick keys => isTrue ⟨keys, rfl⟩
  | .doorMessage _ _ => isFalse (by rintro ⟨_, same⟩; cases same)

instance (doorId : Int) (events : List WorldEvent) (k : Nat) : Decidable (OpenTick doorId events k) :=
  inferInstanceAs (Decidable (_ ∧ _))

def openTicks (doorId : Int) (events : List WorldEvent) : Nat :=
  (List.range events.length).countP fun k => OpenTick doorId events k

theorem lastState_concat (doorId : Int) (events : List WorldEvent) (event : WorldEvent) :
    lastState doorId (events ++ [event]) = (stateFor doorId event).getD (lastState doorId events) := by
  rw [lastState, List.filterMap_append]
  cases found : stateFor doorId event with
  | none => simp [found, lastState]
  | some state => simp [found]

theorem openTicks_concat (doorId : Int) (events : List WorldEvent) (event : WorldEvent) :
    openTicks doorId (events ++ [event]) = openTicks doorId events +
      if (∃ keys, event = .tick keys) ∧ lastState doorId events ≠ 0 then 1 else 0 := by
  have earlier : (List.range events.length).countP (fun k => OpenTick doorId (events ++ [event]) k) =
      openTicks doorId events := by
    refine List.countP_congr fun k member => ?_
    have inside := List.mem_range.mp member
    rw [decide_eq_true_iff, decide_eq_true_iff]
    simp only [OpenTick, List.getElem?_append_left inside, List.take_append_of_le_length inside.le]
  rw [openTicks, List.length_append, List.length_singleton, List.range_succ, List.countP_append, earlier]
  simp only [List.countP_singleton, OpenTick, List.getElem?_concat_length, List.take_left,
    Option.mem_some_iff, exists_eq_left', decide_eq_true_eq]

variable {K : Type}

def Door.answer (door : Door K) (doorId state : Int) : Door K :=
  if door.id = doorId then { door with isOpen := state } else door

theorem answer_id (door : Door K) (doorId state : Int) : (door.answer doorId state).id = door.id := by
  unfold Door.answer
  split <;> rfl

def DistinctDoors (manager : EntityManager K) : Prop :=
  ∀ first second door other, manager.doorAt first = some door → manager.doorAt second = some other →
    door.id = other.id → first = second

theorem doorAt_eq_some_iff {manager : EntityManager K} {index : Nat} {door : Door K} :
    manager.doorAt index = some door ↔ ∃ active, manager.entities[index]? = some ⟨.door door, active⟩ := by
  unfold EntityManager.doorAt
  split
  · rename_i self active found
    simp [found]
  · rename_i none
    constructor
    · intro absurd
      cases absurd
    · rintro ⟨active, found⟩
      exact absurd found (none door active)

def Entity.answer (entity : Entity K) (doorId state : Int) : Entity K :=
  match entity.data with
  | .door door => { entity with data := .door (door.answer doorId state) }
  | .player _ => entity

def EntityManager.answer (manager : EntityManager K) (doorId state : Int) : EntityManager K :=
  { manager with entities := manager.entities.map fun entity => entity.answer doorId state }

theorem answer_doorAt (manager : EntityManager K) (doorId state : Int) (index : Nat) :
    (manager.answer doorId state).doorAt index = (manager.doorAt index).map fun door => door.answer doorId state := by
  rw [EntityManager.doorAt, EntityManager.doorAt, EntityManager.answer, List.getElem?_map]
  cases manager.entities[index]? with
  | none => rfl
  | some entity =>
    obtain ⟨data, active⟩ := entity
    cases data <;> rfl

theorem Entity.answer_of_other {entity : Entity K} {doorId state : Int}
    (other : ∀ door, entity.data = .door door → door.id ≠ doorId) : entity.answer doorId state = entity := by
  obtain ⟨data, active⟩ := entity
  cases data with
  | player self => rfl
  | door door => simp [Entity.answer, Door.answer, other door rfl]

section
variable {manager : EntityManager K} {doorId state : Int}

theorem openDoor_getElem?_eq (distinct : DistinctDoors manager) (index : Nat) :
    (openDoor manager doorId state).entities[index]? =
      manager.entities[index]?.map fun entity => entity.answer doorId state := by
  unfold openDoor
  dsimp only
  split
  · rename_i missing
    cases found : manager.entities[index]? with
    | none => rfl
    | some entity =>
      have other := List.findIdx?_eq_none_iff.mp missing entity (List.mem_of_getElem? found)
      rw [Option.map_some, Entity.answer_of_other fun door same => by simpa [same] using other]
  · rename_i target found
    obtain ⟨inside, isDoor, _⟩ := List.findIdx?_eq_some_iff_getElem.mp found
    have stored := List.getElem?_eq_getElem inside
    generalize manager.entities[target] = named at isDoor stored
    obtain ⟨data, live⟩ := named
    cases data with
    | player self => cases isDoor
    | door self =>
      have called : self.id = doorId := of_decide_eq_true isDoor
      rw [List.getElem?_modify]
      by_cases here : target = index
      · subst here
        simp [stored, Entity.answer, Door.answer, called]
      · cases elsewhere : manager.entities[index]? with
        | none => rfl
        | some entity =>
          obtain ⟨data, active⟩ := entity
          -- Only one door carries the id, and it is stored at the target.
          have kept : (⟨data, active⟩ : Entity K).answer doorId state = ⟨data, active⟩ := by
            apply Entity.answer_of_other
            rintro door rfl also
            exact here (distinct target index self door (doorAt_eq_some_iff.mpr ⟨live, stored⟩)
              (doorAt_eq_some_iff.mpr ⟨active, elsewhere⟩) (called.trans also.symm))
          simp [here, kept]

/-- Among doors with distinct ids a message sets every door it names. -/
theorem openDoor_eq_answer (distinct : DistinctDoors manager) :
    openDoor manager doorId state = manager.answer doorId state := by
  have entities : (openDoor manager doorId state).entities = (manager.answer doorId state).entities :=
    List.ext_getElem? fun index => by
      rw [openDoor_getElem?_eq distinct, EntityManager.answer, List.getElem?_map]
  unfold openDoor at entities ⊢
  dsimp only at entities ⊢
  split at entities <;> exact congrArg (fun entities => { manager with entities }) entities

end

/-- A manager whose updates reach every door: it holds a player and every entity is active. -/
structure Updatable (manager : EntityManager K) : Prop where
  holds : HoldsPlayer manager
  live : ∀ entity ∈ manager.entities, entity.active = true

section
variable [Scalar K] {keys : MoveKeys} {world next : World K}

theorem updateDoor_fst (door : Door K) (player : Player K) : (updateDoor door player).1 = door.lift := by
  unfold updateDoor
  dsimp only
  split <;> rfl

theorem lift_id (door : Door K) : door.lift.id = door.id := by
  unfold Door.lift
  split <;> rfl

theorem updateEntity_updatable {index : Nat} (updatable : Updatable world.manager)
    (taken : updateEntity keys world index = .ok next) : Updatable next.manager := by
  obtain ⟨other, taken', same⟩ := updateEntity_sameKinds keys updatable.holds index
  cases taken.symm.trans taken'
  refine ⟨same.holds updatable.holds, ?_⟩
  cases entityUpdated_of_ok taken with
  | player found => exact active_setData updatable.live
  | door found read => exact active_setPlayer (active_setData updatable.live)
  | skipped idle => exact updatable.live

theorem updateEntity_doorAt {index : Nat} (updatable : Updatable world.manager)
    (taken : updateEntity keys world index = .ok next) (other : Nat) : next.manager.doorAt other =
      if index = other then (world.manager.doorAt other).map Door.lift else world.manager.doorAt other := by
  cases entityUpdated_of_ok taken with
  | player found =>
    rw [doorAt_setData_player _ found]
    split
    · rename_i same
      subst same
      simp [EntityManager.doorAt, found]
    · rfl
  | @door self player found read =>
    rw [doorAt_updateDoor found read]
    split
    · rename_i same
      subst same
      rw [updateDoor_fst, doorAt_eq_some_iff.mpr ⟨true, found⟩, Option.map_some]
    · rfl
  | skipped idle =>
    split
    · rename_i same
      subst same
      cases found : world.manager.doorAt index with
      | none => rfl
      | some door =>
        obtain ⟨active, stored⟩ := doorAt_eq_some_iff.mp found
        have live := updatable.live _ (List.mem_of_getElem? stored)
        rw [idle _ stored] at live
        cases live
    · rfl

structure LiftedUpTo (start : EntityManager K) (count : Nat) (world : World K) : Prop where
  updatable : Updatable world.manager
  doors : ∀ index, world.manager.doorAt index =
    if index < count then (start.doorAt index).map Door.lift else start.doorAt index

theorem updateEntity_lifted {start : EntityManager K} {count : Nat} (lifted : LiftedUpTo start count world)
    (taken : updateEntity keys world count = .ok next) : LiftedUpTo start (count + 1) next := by
  refine ⟨updateEntity_updatable lifted.updatable taken, fun index => ?_⟩
  rw [updateEntity_doorAt lifted.updatable taken, lifted.doors]
  rcases Nat.lt_trichotomy index count with before | rfl | behind
  · rw [if_neg (Nat.ne_of_gt before), if_pos before, if_pos (Nat.lt_succ_of_lt before)]
  · rw [if_pos rfl, if_neg (Nat.lt_irrefl _), if_pos (Nat.lt_succ_self _)]
  · rw [if_neg (Nat.ne_of_lt behind), if_neg (by omega), if_neg (by omega)]

theorem updateAllEntities_doorAt (updatable : Updatable world.manager)
    (taken : updateAllEntities keys world = .ok next) : Updatable next.manager ∧
      ∀ index, next.manager.doorAt index = (world.manager.doorAt index).map Door.lift := by
  rw [updateAllEntities, foldlM_eq_run] at taken
  have initial : LiftedUpTo world.manager 0 world := ⟨updatable, fun index => rfl⟩
  have anywhere : Along (updateEntity keys) (fun _ _ => True) world (List.range world.manager.count) :=
    along_of_forall (fun _ _ => trivial) world _
  have lifted := run_range_invariant (fun count state after held _ step => updateEntity_lifted held step)
    initial anywhere taken
  refine ⟨lifted.updatable, fun index => ?_⟩
  rw [lifted.doors index]
  split
  · rfl
  · rename_i outside
    have none : world.manager.entities[index]? = none := List.getElem?_eq_none (Nat.le_of_not_lt outside)
    simp [EntityManager.doorAt, none]

end

def Door.Closed [Scalar K] (door : Door K) : Prop := door = createDoor door.pos door.id door.textureId

/-- The scan of a level numbers its doors. -/
structure NumberedDoors [Scalar K] (spawning : Spawning K) : Prop where
  closed : ∀ index door, spawning.manager.doorAt index = some door → door.Closed
  below : ∀ index door, spawning.manager.doorAt index = some door → door.id < spawning.doorId
  distinct : DistinctDoors spawning.manager

theorem doorAt_createEntity {manager next : EntityManager K} {data : EntityData K}
    (created : createEntity manager data = .ok next) {index : Nat} {door : Door K}
    (found : next.doorAt index = some door) :
    manager.doorAt index = some door ∨ index = manager.count ∧ data = .door door := by
  obtain ⟨active, stored⟩ := doorAt_eq_some_iff.mp found
  rw [(createEntity_ok created).1, List.getElem?_append] at stored
  split at stored
  · exact .inl (doorAt_eq_some_iff.mpr ⟨active, stored⟩)
  · rename_i outside
    rw [List.getElem?_singleton] at stored
    split at stored
    · rename_i last
      cases stored
      exact .inr ⟨Nat.le_antisymm (Nat.sub_eq_zero_iff_le.mp last) (Nat.le_of_not_lt outside), rfl⟩
    · cases stored

theorem spawnCell_numbered [Scalar K] {objects : List ObjectConfig} {spawning next : Spawning K}
    {cell : Nat × Nat × Int} (numbered : NumberedDoors spawning)
    (spawned : spawnCell objects spawning cell = .ok next) : NumberedDoors next := by
  cases cellSpawned_of_ok spawned with
  | @player manager _ created =>
    -- A player adds no door.
    have kept (index : Nat) (door : Door K) (found : manager.doorAt index = some door) :
        spawning.manager.doorAt index = some door := by
      rcases doorAt_createEntity created found with before | ⟨_, same⟩
      · exact before
      · cases same
    exact ⟨fun index door found => numbered.closed index door (kept index door found),
      fun index door found => numbered.below index door (kept index door found),
      fun first second door other here there =>
        numbered.distinct first second door other (kept first door here) (kept second other there)⟩
  | door _ created =>
    refine ⟨fun index door found => ?_, fun index door found => ?_, fun first second door other here there same => ?_⟩
    · rcases doorAt_createEntity created found with before | ⟨_, last⟩
      · exact numbered.closed index door before
      · cases last
        rfl
    · rcases doorAt_createEntity created found with before | ⟨_, last⟩
      · exact Int.lt_add_one_of_le (numbered.below index door before).le
      · cases last
        exact Int.lt_succ spawning.doorId
    · rcases doorAt_createEntity created here with before | ⟨atEnd, last⟩ <;>
        rcases doorAt_createEntity created there with earlier | ⟨alsoAtEnd, alsoLast⟩
      · exact numbered.distinct first second door other before earlier same
      · cases alsoLast
        exact absurd same (numbered.below first door before).ne
      · cases last
        exact absurd same.symm (numbered.below second other earlier).ne
      · exact atEnd.trans alsoAtEnd.symm
  | plain _ => exact numbered

theorem getMap_numbered [Scalar K] {loads : Bytes → Bool} {file : Option Json} {loaded : LoadedMap K}
    (read : getMap loads file = .ok (some loaded)) :
    (∀ index door, loaded.manager.doorAt index = some door → door.Closed) ∧ DistinctDoors loaded.manager := by
  obtain ⟨stored, config, spawning, _, _, spawned, same⟩ := getMap_spawns read
  have initial : NumberedDoors (⟨createEntityManager 10, 0⟩ : Spawning K) :=
    ⟨fun index door found => by simp [EntityManager.doorAt, createEntityManager] at found,
      fun index door found => by simp [EntityManager.doorAt, createEntityManager] at found,
      fun first second door other here => by simp [EntityManager.doorAt, createEntityManager] at here⟩
  have numbered : NumberedDoors spawning := foldlM_invariant NumberedDoors
    (fun state cell _ next numbered taken => spawnCell_numbered numbered taken) initial spawned
  rw [same]
  exact ⟨numbered.closed, numbered.distinct⟩

theorem openTicks_le_append (doorId : Int) (front back : List WorldEvent) :
    openTicks doorId front ≤ openTicks doorId (front ++ back) := by
  induction back using List.reverseRecOn with
  | nil => rw [List.append_nil]
  | append_singleton back event ih =>
    rw [← List.append_assoc, openTicks_concat]
    exact Nat.le_add_right_of_le ih

/-- The heights through which an open door climbs in that many ticks, one quarter pixel after
another, until it has left its cell. -/
structure Climbs [Scalar K] (door : Door K) (height : Nat → K) (ticks : Nat) : Prop where
  first : height 0 = door.pos.y
  rises : ∀ m < ticks, m < 128 → door.maxHeight < height m ∧ height m - Scalar.ofRat (1 / 4) = height (m + 1)
  stops : 128 < ticks → ¬ door.maxHeight < height 128

/-- The door after these events, with the heights of its climb. -/
def Door.after (door : Door K) (height : Nat → K) (events : List WorldEvent) : Door K :=
  { door with
    isOpen := lastState door.id events
    pos := { door.pos with y := height (min 128 (openTicks door.id events)) } }

section
variable [Scalar K] {door : Door K} {height : Nat → K}

theorem Climbs.mono {more ticks : Nat} (climbs : Climbs door height more) (less : ticks ≤ more) :
    Climbs door height ticks where
  first := climbs.first
  rises := fun m below => climbs.rises m (below.trans_le less)
  stops := fun passed => climbs.stops (passed.trans_le less)

theorem after_nil (closed : door.Closed) (climbs : Climbs door height (openTicks door.id [])) :
    door.after height [] = door := by
  have first : height (min 128 (openTicks door.id [])) = door.pos.y := climbs.first
  rw [Door.after, first]
  conv_rhs => rw [closed]
  conv_lhs => rw [closed]
  rfl

theorem after_tick {events : List WorldEvent} {keys : MoveKeys}
    (climbs : Climbs door height (openTicks door.id (events ++ [.tick keys]))) :
    (door.after height events).lift = door.after height (events ++ [.tick keys]) := by
  have same : lastState door.id (events ++ [.tick keys]) = lastState door.id events :=
    lastState_concat door.id events (.tick keys)
  rw [Door.lift]
  by_cases opened : lastState door.id events = 0
  · have counted : openTicks door.id (events ++ [.tick keys]) = openTicks door.id events := by
      rw [openTicks_concat, if_neg fun open_ => open_.2 opened, Nat.add_zero]
    rw [if_neg (fun rises => rises.1 opened), Door.after, Door.after, same, counted]
  · have counted : openTicks door.id (events ++ [.tick keys]) = openTicks door.id events + 1 := by
      rw [openTicks_concat, if_pos ⟨⟨keys, rfl⟩, opened⟩]
    rw [counted] at climbs
    rw [Door.after, Door.after, same, counted]
    by_cases full : 128 ≤ openTicks door.id events
    · -- The door has left its cell.
      rw [Nat.min_eq_left full, Nat.min_eq_left (by omega), if_neg fun rises => climbs.stops (by omega) rises.2]
    · have room := Nat.lt_of_not_le full
      obtain ⟨below, next⟩ := climbs.rises (openTicks door.id events) (Nat.lt_succ_self _) room
      rw [Nat.min_eq_right room.le, Nat.min_eq_right room, if_pos ⟨opened, below⟩]
      simp only [Door.mk.injEq, Vector2.mk.injEq, true_and, and_true]
      exact next

end

theorem after_message (door : Door K) (height : Nat → K) (events : List WorldEvent) (doorId state : Int) :
    (door.after height events).answer doorId state = door.after height (events ++ [.doorMessage doorId state]) := by
  have ticks : openTicks door.id (events ++ [.doorMessage doorId state]) = openTicks door.id events := by
    rw [openTicks_concat, if_neg]
    · rfl
    · rintro ⟨⟨keys, same⟩, _⟩
      cases same
  rw [Door.answer, Door.after, Door.after, lastState_concat, ticks, stateFor]
  by_cases named : doorId = door.id
  · rw [if_pos named.symm, if_pos named]
    rfl
  · rw [if_neg (Ne.symm named), if_neg named]
    rfl

/-- After any events every door is where they put it. -/
theorem run_doorAt [Scalar K] {start : World K} (height : Door K → Nat → K) (updatable : Updatable start.manager)
    (closed : ∀ index door, start.manager.doorAt index = some door → door.Closed)
    (distinct : DistinctDoors start.manager) (events : List WorldEvent)
    (climbs : ∀ index door, start.manager.doorAt index = some door →
      Climbs door (height door) (openTicks door.id events)) :
    ∃ world, run worldStep start events = .ok world ∧ Updatable world.manager ∧
      ∀ index, world.manager.doorAt index =
        (start.manager.doorAt index).map fun door => door.after (height door) events := by
  induction events using List.reverseRecOn with
  | nil =>
    refine ⟨start, rfl, updatable, fun index => ?_⟩
    cases found : start.manager.doorAt index with
    | none => rfl
    | some door => rw [Option.map_some, after_nil (closed index door found) (climbs index door found)]
  | append_singleton events event ih =>
    obtain ⟨world, reached, held, doors⟩ := ih fun index door found =>
      (climbs index door found).mono (openTicks_le_append door.id events [event])
    cases event with
    | tick keys =>
      obtain ⟨next, taken, -⟩ := updateAllEntities_holds keys world held.holds
      obtain ⟨heldNext, lifted⟩ := updateAllEntities_doorAt held taken
      refine ⟨next, run_concat_of_ok reached taken, heldNext, fun index => ?_⟩
      rw [lifted, doors]
      cases found : start.manager.doorAt index with
      | none => rfl
      | some door => exact congrArg some (after_tick (climbs index door found))
    | doorMessage doorId state =>
      have apart : DistinctDoors world.manager := by
        intro first second door other here there same
        rw [doors, Option.map_eq_some_iff] at here there
        obtain ⟨before, found, rfl⟩ := here
        obtain ⟨earlier, alsoFound, rfl⟩ := there
        exact distinct first second before earlier found alsoFound same
      refine ⟨{ world with manager := openDoor world.manager doorId state }, run_concat_of_ok reached rfl,
        ⟨(openDoor_sameKinds ..).holds held.holds, active_openDoor held.live⟩, fun index => ?_⟩
      rw [openDoor_eq_answer apart, answer_doorAt, doors]
      cases start.manager.doorAt index with
      | none => rfl
      | some door => exact congrArg some (after_message door (height door) events doorId state)

theorem loaded_updatable {loads : Bytes → Bool} {file : Option Json} {loaded : LoadedMap K} [Scalar K]
    (read : getMap loads file = .ok (some loaded)) (player : HoldsPlayer loaded.manager) :
    Updatable loaded.manager :=
  ⟨player, fun entity member => (getMap_fresh read entity member).1⟩

/-! ## Exact heights -/

def quarters (y : Rat) (m : Nat) : Rat := y - m / 4

theorem closed_limit {door : Door Rat} (closed : door.Closed) : door.maxHeight = door.pos.y - 32 := by
  rw [closed]
  rfl

theorem closed_climbs {door : Door Rat} (closed : door.Closed) (ticks : Nat) :
    Climbs door (quarters door.pos.y) ticks := by
  have limit := closed_limit closed
  refine ⟨by simp [quarters], fun m _ below => ⟨?_, ?_⟩, fun _ => ?_⟩
  · have less : (m : Rat) < 128 := by exact_mod_cast below
    rw [limit, quarters]
    linarith
  · change quarters door.pos.y m - (1 / 4 : Rat) = _
    rw [quarters, quarters]
    push_cast
    ring
  · rw [limit, quarters]
    norm_num

structure DoorHistory (start : Door Rat) (events : List WorldEvent) (door : Door Rat) : Prop where
  id : door.id = start.id
  state : door.isOpen = lastState start.id events
  x : door.pos.x = start.pos.x
  y : door.pos.y = start.pos.y - (min 128 (openTicks start.id events) : Nat) / 4
  limit : door.maxHeight ≤ door.pos.y
  ceiling : door.pos.y ≤ start.pos.y

theorem after_history {door : Door Rat} (limit : door.maxHeight = door.pos.y - 32) (events : List WorldEvent) :
    DoorHistory door events (door.after (quarters door.pos.y) events) := by
  have atMost : ((min 128 (openTicks door.id events) : Nat) : Rat) ≤ 128 := by
    exact_mod_cast Nat.min_le_left 128 (openTicks door.id events)
  have atLeast : (0 : Rat) ≤ (min 128 (openTicks door.id events) : Nat) := Nat.cast_nonneg _
  refine ⟨rfl, rfl, rfl, rfl, ?_, ?_⟩
  · change door.maxHeight ≤ door.pos.y - (min 128 (openTicks door.id events) : Nat) / 4
    rw [limit]
    linarith
  · change door.pos.y - (min 128 (openTicks door.id events) : Nat) / 4 ≤ door.pos.y
    linarith

theorem DoorHistory.antitone {start before door : Door Rat} {front back : List WorldEvent}
    (earlier : DoorHistory start front before) (later : DoorHistory start (front ++ back) door) :
    door.pos.y ≤ before.pos.y := by
  have more : (min 128 (openTicks start.id front) : Nat) ≤ min 128 (openTicks start.id (front ++ back)) :=
    Nat.le_min.mpr ⟨Nat.min_le_left .., (Nat.min_le_right ..).trans (openTicks_le_append start.id front back)⟩
  have raised : ((min 128 (openTicks start.id front) : Nat) : Rat) ≤
      (min 128 (openTicks start.id (front ++ back)) : Nat) := by exact_mod_cast more
  rw [earlier.y, later.y]
  linarith

end Trigger.Engine
