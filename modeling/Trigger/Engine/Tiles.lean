import Trigger.Config.Level

/-! What a tile id means to the running game: `get_map` turns the cells of some
objects into entities, and `check_collision_pl` reads every other value.
-/

set_option autoImplicit false

namespace Trigger.Engine
open Foundation Config

inductive Spawn where
  | player
  | door
  deriving DecidableEq, Repr

/-- The branch of `get_map` taken for the entity text of an object. -/
def entitySpawn (object : ObjectConfig) : Option Spawn :=
  if object.entity.val = text "player" then some .player
  else if object.entity.val = text "door" then some .door
  else none

def Spawn.entity : Spawn → Bytes
  | .player => text "player"
  | .door => text "door"

theorem entitySpawn_eq_some_iff {object : ObjectConfig} {what : Spawn} :
    entitySpawn object = some what ↔ object.entity.val = what.entity := by
  have apart : text "player" ≠ text "door" := by decide
  unfold entitySpawn Spawn.entity
  cases what with
  | player => split_ifs <;> simp_all
  | door => split_ifs <;> simp_all

/-- What `get_map` creates for a cell: nothing for id zero, else by the first
object with the id. -/
def spawnOf (objects : List ObjectConfig) (tileId : Int) : Option Spawn :=
  if tileId = 0 then none else (objectById objects tileId).bind entitySpawn

/-- A cell spawns what the first object with its id names as its entity. -/
theorem spawnOf_eq_some_iff {objects : List ObjectConfig} {tileId : Int} {what : Spawn} :
    spawnOf objects tileId = some what ↔ tileId ≠ 0 ∧ ∃ before object after, objects = before ++ object :: after ∧
      object.id = tileId ∧ (∀ other ∈ before, other.id ≠ tileId) ∧ object.entity.val = what.entity := by
  unfold spawnOf
  split_ifs with zero
  · simp [zero]
  · simp only [Option.bind_eq_some_iff, objectById_eq_some_iff, entitySpawn_eq_some_iff]
    constructor
    · rintro ⟨object, ⟨same, before, after, split, first⟩, named⟩
      exact ⟨zero, before, object, after, split, same, first, named⟩
    · rintro ⟨-, before, object, after, split, same, first, named⟩
      exact ⟨object, ⟨same, before, after, split, first⟩, named⟩

inductive Contact where
  | free
  | levelEnd
  | solid
  deriving DecidableEq, Repr

/-- The branch of `check_collision_pl` taken for the value of a cell. -/
def contactOf (value : Int) : Contact :=
  if value > 0 then if value = 3 then .levelEnd else .solid else .free

inductive Role where
  | empty
  | spawns (what : Spawn)
  | levelEnd
  | solid
  deriving DecidableEq, Repr

/-- A cell that spawns an entity is cleared and collides with nothing. -/
def roleOf (objects : List ObjectConfig) (tileId : Int) : Role :=
  match spawnOf objects tileId with
  | some what => .spawns what
  | none =>
    match contactOf tileId with
    | .free => .empty
    | .levelEnd => .levelEnd
    | .solid => .solid

def roleWith (spawn : Option Spawn) (tileId : Int) : Role :=
  if tileId = 0 then .empty
  else match spawn with
    | some what => .spawns what
    | none => if tileId = 3 then .levelEnd else .solid

theorem roleOf_eq_roleWith {objects : List ObjectConfig} {tileId : Int} {object : ObjectConfig}
    (found : objectById objects tileId = some object) (range : 0 ≤ tileId) :
    roleOf objects tileId = roleWith (entitySpawn object) tileId := by
  unfold roleOf spawnOf roleWith
  by_cases zero : tileId = 0
  · simp [zero, contactOf]
  · have positive : tileId > 0 := by omega
    rw [if_neg zero, if_neg zero, found, Option.bind_some]
    cases entitySpawn object with
    | some what => rfl
    | none => by_cases last : tileId = 3 <;> simp [contactOf, positive, last]

/-- Two ids of one object play the same role unless one of them is a fixed id. -/
theorem roleWith_eq_iff {spawn : Option Spawn} {first second : Int} :
    roleWith spawn first = roleWith spawn second ↔
      (first = 0 ↔ second = 0) ∧ (spawn = none → first ≠ 0 → (first = 3 ↔ second = 3)) := by
  unfold roleWith
  by_cases zero : first = 0 <;> by_cases other : second = 0 <;> cases spawn with
  | some what => simp [zero, other]
  | none => by_cases last : first = 3 <;> by_cases otherLast : second = 3 <;>
      simp_all

end Trigger.Engine
