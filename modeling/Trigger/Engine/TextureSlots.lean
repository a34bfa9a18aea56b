import Trigger.Engine.Indices

/-! The texture table after `init_texture_manager`: which slot holds which texture.

The loop goes through the objects, and uses the id of each one both for the slot it
writes and for the position of the object whose path it reads.
-/

set_option autoImplicit false

namespace Trigger.Engine
open Foundation Config

/-- What a slot is to hold for a path: nothing for none, and the placeholder for a file
that cannot be read. -/
def slotFor (loads : Bytes → Bool) (path : Bytes) : Texture × Bool :=
  if path = [] then (.empty, false) else if loads path then (.file path, true) else (.placeholder, false)

def TextureManager.slot (manager : TextureManager) (slot : Fin maxTextures) : Texture × Bool :=
  (manager.texture slot, manager.loaded slot)

/-- After the loop each object has the texture of its path in the slot of its id, no other
slot is written, and the largest id is recorded. -/
def SlotsMatch (loads : Bytes → Bool) (objects : List ObjectConfig) : Prop :=
  ∃ manager, initTextureManager loads objects = .ok manager ∧
    (∀ object ∈ objects, ∃ slot, textureIndex object.id = .ok slot ∧ manager.slot slot = slotFor loads object.texture.val) ∧
    (∀ slot : Fin maxTextures, (∀ object ∈ objects, object.id ≠ (slot.val : Int)) → manager.slot slot = (.empty, false)) ∧
    (∀ object ∈ objects, object.id ≤ manager.maxId) ∧
    (objects ≠ [] → ∃ object ∈ objects, object.id = manager.maxId)

/-- Two paths leave a slot alike: they are the same, or neither file can be read. -/
def SameTexture (loads : Bytes → Bool) (first second : Bytes) : Prop :=
  first = second ∨ first ≠ [] ∧ second ≠ [] ∧ loads first = false ∧ loads second = false

/-- The object at the position its id names has its texture. -/
def NamesItsTexture (loads : Bytes → Bool) (objects : List ObjectConfig) (object : ObjectConfig) : Prop :=
  ∃ named, objects[object.id.toNat]? = some named ∧ SameTexture loads named.texture.val object.texture.val

theorem slotFor_eq_iff {loads : Bytes → Bool} {first second : Bytes} :
    slotFor loads first = slotFor loads second ↔ SameTexture loads first second := by
  unfold slotFor SameTexture
  by_cases same : first = second
  · simp [same]
  · by_cases none : first = [] <;> by_cases other : second = [] <;> cases reads : loads first <;>
      cases also : loads second <;> simp_all

structure SlotWritten (loads : Bytes → Bool) (objects : List ObjectConfig) (object : ObjectConfig)
    (before after : TextureManager) (named : ObjectConfig) (slot : Fin maxTextures) : Prop where
  found : objectAt objects object.id = .ok named
  index : textureIndex object.id = .ok slot
  written : after.slot slot = if named.texture.val = [] then (before.texture slot, false)
    else slotFor loads named.texture.val
  kept : ∀ other, other ≠ slot → after.slot other = before.slot other
  maxId : after.maxId = max before.maxId object.id

theorem initTexture_written {loads : Bytes → Bool} {objects : List ObjectConfig} {before after : TextureManager}
    {object : ObjectConfig} (taken : initTexture loads objects before object = .ok after) :
    ∃ named slot, SlotWritten loads objects object before after named slot := by
  have largest : (if object.id > before.maxId then object.id else before.maxId) = max before.maxId object.id := by
    split <;> omega
  obtain ⟨named, found, rest⟩ := bind_ok_iff.mp taken
  obtain ⟨slot, index, rest⟩ := bind_ok_iff.mp rest
  rw [largest] at rest
  refine ⟨named, slot, ?_⟩
  by_cases empty : named.texture.val = []
  · rw [if_pos empty] at rest
    cases rest
    refine ⟨found, index, ?_, fun other apart => ?_, rfl⟩
    · simp [TextureManager.slot, empty]
    · simp [TextureManager.slot, apart]
  · by_cases readable : loads named.texture.val = true
    · rw [if_neg empty, if_pos readable] at rest
      cases rest
      refine ⟨found, index, ?_, fun other apart => ?_, rfl⟩
      · simp [TextureManager.slot, slotFor, empty, readable]
      · simp [TextureManager.slot, apart]
    · rw [if_neg empty, if_neg readable] at rest
      cases rest
      refine ⟨found, index, ?_, fun other apart => ?_, rfl⟩
      · simp [TextureManager.slot, slotFor, empty, readable]
      · simp [TextureManager.slot, apart]

theorem textureIndex_ok_val {id : Int} {slot : Fin maxTextures} :
    textureIndex id = .ok slot ↔ id = (slot.val : Int) := by
  unfold textureIndex
  split
  · rename_i range
    rw [Except.ok.injEq, Fin.ext_iff]
    have bound := range.1
    dsimp only
    omega
  · rename_i outside
    constructor
    · intro absurd
      cases absurd
    · rintro rfl
      exact absurd ⟨Int.natCast_nonneg _, slot.isLt⟩ outside

theorem objectAt_ok {objects : List ObjectConfig} {id : Int} {named : ObjectConfig} :
    objectAt objects id = .ok named ↔ 0 ≤ id ∧ objects[id.toNat]? = some named := by
  unfold objectAt
  split
  · rename_i range
    cases objects[id.toNat]? <;> simp [range]
  · rename_i outside
    simp [outside]

/-- The table when these objects are done: the slot of an object holds the texture of the
object at the position its id names. -/
structure SlotsOf (loads : Bytes → Bool) (objects taken : List ObjectConfig) (manager : TextureManager) : Prop where
  held : ∀ object ∈ taken, ∃ named slot, objectAt objects object.id = .ok named ∧
    textureIndex object.id = .ok slot ∧ manager.slot slot = slotFor loads named.texture.val
  empty : ∀ slot : Fin maxTextures, (∀ object ∈ taken, object.id ≠ (slot.val : Int)) → manager.slot slot = (.empty, false)
  bound : ∀ object ∈ taken, object.id ≤ manager.maxId
  reached : manager.maxId = 0 ∨ ∃ object ∈ taken, object.id = manager.maxId

/-- A slot whose object has no path is still empty when the object is written again. -/
theorem SlotsOf.written_eq {loads : Bytes → Bool} {objects taken : List ObjectConfig} {before after : TextureManager}
    {object named : ObjectConfig} {slot : Fin maxTextures} (held : SlotsOf loads objects taken before)
    (step : SlotWritten loads objects object before after named slot) :
    after.slot slot = slotFor loads named.texture.val := by
  rw [step.written]
  split
  · rename_i none
    have blank : before.slot slot = (.empty, false) := by
      by_cases earlier : ∃ other ∈ taken, other.id = (slot.val : Int)
      · obtain ⟨other, member, same⟩ := earlier
        obtain ⟨also, place, found, index, stored⟩ := held.held other member
        have equal : object.id = other.id := (textureIndex_ok_val.mp step.index).trans same.symm
        cases (equal ▸ step.index).symm.trans index
        cases (equal ▸ step.found).symm.trans found
        rw [stored, slotFor, if_pos none]
      · exact held.empty slot fun other member same => earlier ⟨other, member, same⟩
    rw [slotFor, if_pos none]
    have untouched : before.texture slot = .empty := congrArg Prod.fst blank
    rw [untouched]
  · rfl

theorem initTexture_slotsOf {loads : Bytes → Bool} {objects taken : List ObjectConfig} {before after : TextureManager}
    {object : ObjectConfig} (held : SlotsOf loads objects taken before)
    (step : initTexture loads objects before object = .ok after) : SlotsOf loads objects (taken ++ [object]) after := by
  obtain ⟨named, slot, step⟩ := initTexture_written step
  have written := held.written_eq step
  have place := textureIndex_ok_val.mp step.index
  constructor
  · refine List.forall_mem_append.mpr ⟨fun other member => ?_, List.forall_mem_singleton.mpr
      ⟨named, slot, step.found, step.index, written⟩⟩
    obtain ⟨also, index, found, there, stored⟩ := held.held other member
    refine ⟨also, index, found, there, ?_⟩
    by_cases here : index = slot
    · -- The same id names the same object, so the slot is written as it was.
      subst here
      have equal : object.id = other.id := place.trans (textureIndex_ok_val.mp there).symm
      cases (equal ▸ step.found).symm.trans found
      exact written
    · rw [step.kept index here, stored]
  · intro other apart
    have unwritten : other ≠ slot := by
      rintro rfl
      exact apart object (by simp) place
    rw [step.kept other unwritten]
    exact held.empty other fun earlier member => apart earlier (List.mem_append_left _ member)
  · rw [step.maxId]
    refine List.forall_mem_append.mpr ⟨fun other member => ?_, List.forall_mem_singleton.mpr (le_max_right _ _)⟩
    exact (held.bound other member).trans (le_max_left _ _)
  · rw [step.maxId]
    rcases Int.le_total object.id before.maxId with below | above
    · rw [max_eq_left below]
      exact held.reached.imp id fun ⟨other, member, same⟩ => ⟨other, List.mem_append_left _ member, same⟩
    · rw [max_eq_right above]
      exact .inr ⟨object, by simp, rfl⟩

theorem initTextureManager_slotsOf {loads : Bytes → Bool} {objects : List ObjectConfig} {manager : TextureManager}
    (done : initTextureManager loads objects = .ok manager) : SlotsOf loads objects objects manager :=
  foldlM_history (SlotsOf loads objects) (fun _ _ _ _ held step => initTexture_slotsOf held step)
    ⟨nofun, fun _ _ => rfl, nofun, .inl rfl⟩ done

/-- The slots match the ids exactly when every id is in range and names a position of the
list with the texture of its object. -/
theorem slotsMatch_iff (loads : Bytes → Bool) (objects : List ObjectConfig) :
    SlotsMatch loads objects ↔
      ∀ object ∈ objects, 0 ≤ object.id ∧ object.id < maxTextures ∧ NamesItsTexture loads objects object := by
  constructor
  · rintro ⟨manager, done, matched, -⟩ object member
    obtain ⟨low, _, most⟩ := (initTextureManager_ok_iff loads).mp ⟨manager, done⟩ object member
    obtain ⟨named, slot, found, index, stored⟩ := (initTextureManager_slotsOf done).held object member
    obtain ⟨place, there, right⟩ := matched object member
    cases index.symm.trans there
    exact ⟨low, most, named, (objectAt_ok.mp found).2, slotFor_eq_iff.mp (stored.symm.trans right)⟩
  · intro each
    have range : ∀ object ∈ objects, 0 ≤ object.id ∧ object.id < objects.length ∧ object.id < maxTextures := by
      intro object member
      obtain ⟨low, most, named, found, _⟩ := each object member
      have inside := (List.getElem?_eq_some_iff.mp found).1
      exact ⟨low, by omega, most⟩
    obtain ⟨manager, done⟩ := (initTextureManager_ok_iff loads).mpr range
    have slots := initTextureManager_slotsOf done
    refine ⟨manager, done, fun object member => ?_, slots.empty, slots.bound, fun nonempty => ?_⟩
    · obtain ⟨named, slot, found, index, stored⟩ := slots.held object member
      obtain ⟨_, _, also, there, same⟩ := each object member
      cases (objectAt_ok.mp found).2.symm.trans there
      exact ⟨slot, index, stored.trans (slotFor_eq_iff.mpr same)⟩
    · rcases slots.reached with zero | reached
      · obtain ⟨object, member⟩ := List.exists_mem_of_ne_nil objects nonempty
        refine ⟨object, member, ?_⟩
        have low := (range object member).1
        have high := slots.bound object member
        omega
      · exact reached

def swappedObjects : List ObjectConfig :=
  [⟨1, emptyString, ⟨text "hero.png", by decide⟩, emptyString⟩, ⟨0, emptyString, ⟨text "wall.png", by decide⟩, emptyString⟩]

/-- The slot of the hero gets the wall. -/
theorem swappedObjects_not_slotsMatch : ¬ SlotsMatch (fun _ => true) swappedObjects := by
  rintro ⟨manager, done, matched, -⟩
  obtain ⟨named, slot, found, index, stored⟩ := (initTextureManager_slotsOf done).held _ (List.mem_cons_self ..)
  obtain ⟨place, there, right⟩ := matched _ (List.mem_cons_self ..)
  cases index.symm.trans there
  have wall : objectAt swappedObjects 1 = .ok ⟨0, emptyString, ⟨text "wall.png", by decide⟩, emptyString⟩ := rfl
  cases found.symm.trans wall
  exact absurd (slotFor_eq_iff.mp (stored.symm.trans right)) (by simp [SameTexture]; decide)

end Trigger.Engine
