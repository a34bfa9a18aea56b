import Trigger.Engine.TextureSlots
import Trigger.Foundation.Ledger
import Trigger.Foundation.Runs

/-! Which textures of a level are released.

The table runs beside a ledger of the textures that were created. A slot whose flag is
not set keeps its texture for good, and so does the slot of the largest id.
-/

set_option autoImplicit false

namespace Trigger.Engine
open Foundation Config

/-- `texture` gives the objects of the ledger; a slot without one holds zeros. -/
structure OwnedTextures where
  texture : Fin maxTextures → Option Nat
  loaded : Fin maxTextures → Bool
  maxId : Int
  heap : Ledger Texture

def OwnedTextures.cleared : OwnedTextures := ⟨fun _ => none, fun _ => false, 0, Ledger.empty⟩

/-- A round of `init_texture_manager`; `loads` is the outcome of the call of `LoadTexture`
in a round for its file. -/
def initTextureOwned (loads : Nat → Bytes → Bool) (objects : List ObjectConfig) (owned : OwnedTextures) (i : Nat) :
    Except Fault OwnedTextures := do
  let object ← objectAt objects i
  let id := object.id
  let maxId := if id > owned.maxId then id else owned.maxId
  let named ← objectAt objects id
  let slot ← textureIndex id
  let path := named.texture.val
  if path = [] then return { owned with loaded := Function.update owned.loaded slot false, maxId }
  else
    -- A file that cannot be read gives no texture, and the placeholder is created instead.
    let (texture, heap) := owned.heap.create (if loads i path then .file path else .placeholder)
    return ⟨Function.update owned.texture slot (some texture), Function.update owned.loaded slot (loads i path), maxId, heap⟩

def initTexturesOwned (loads : Nat → Bytes → Bool) (objects : List ObjectConfig) : Except Fault OwnedTextures :=
  run (initTextureOwned loads objects) .cleared (List.range objects.length)

def OwnedTextures.unload (owned : OwnedTextures) (slot : Fin maxTextures) : Ledger Texture :=
  match owned.texture slot with
  | some texture => owned.heap.release texture
  | none => owned.heap

def freeTexture (owned : OwnedTextures) (i : Nat) : Except Fault OwnedTextures := do
  let slot ← textureIndex i
  if owned.loaded slot = true then
    return { owned with loaded := Function.update owned.loaded slot false, heap := owned.unload slot }
  else return owned

def freeTextureManager (owned : OwnedTextures) : Except Fault OwnedTextures :=
  run freeTexture owned (List.range owned.maxId.toNat)

/-- Every texture that was created is released once and nothing else is; freeing again
releases nothing. -/
def ReleasesTextures (loads : Nat → Bytes → Bool) (objects : List ObjectConfig) : Prop :=
  ∃ owned freed again, initTexturesOwned loads objects = .ok owned ∧ freeTextureManager owned = .ok freed ∧
    freeTextureManager freed = .ok again ∧ freed.heap.Balanced ∧
    (∀ texture ∈ freed.heap.released, texture < freed.heap.created.length) ∧ again.heap = freed.heap

def IdsArePositions (objects : List ObjectConfig) : Prop :=
  ∀ (i : Nat) (object : ObjectConfig), objects[i]? = some object → object.id = (i : Int)

def HasPath (objects : List ObjectConfig) (i : Nat) : Prop :=
  ∃ object, objects[i]? = some object ∧ object.texture.val ≠ []

def LoadsAt (loads : Nat → Bytes → Bool) (objects : List ObjectConfig) (i : Nat) : Prop :=
  ∃ object, objects[i]? = some object ∧ object.texture.val ≠ [] ∧ loads i object.texture.val = true

/-- The table behind some rounds, where the ids are the positions: every path has a texture
of its own, and every texture has a slot. -/
structure Filled (loads : Nat → Bytes → Bool) (objects : List ObjectConfig) (rounds : Nat) (owned : OwnedTextures) : Prop where
  maxId : owned.maxId = ((rounds - 1 : Nat) : Int)
  unreleased : owned.heap.released = []
  loaded : ∀ slot, owned.loaded slot = true ↔ slot.val < rounds ∧ LoadsAt loads objects slot.val
  holds : ∀ slot, (owned.texture slot).isSome ↔ slot.val < rounds ∧ HasPath objects slot.val
  created : ∀ slot texture, owned.texture slot = some texture → texture < owned.heap.created.length
  covered : ∀ texture < owned.heap.created.length, ∃ slot, owned.texture slot = some texture
  distinct : ∀ first second texture, owned.texture first = some texture → owned.texture second = some texture →
    first = second

variable {loads : Nat → Bytes → Bool} {objects : List ObjectConfig} {owned : OwnedTextures}

def OwnedTextures.Held (owned : OwnedTextures) : Prop :=
  ∀ slot object, owned.texture slot = some object → object < owned.heap.created.length

theorem OwnedTextures.Held.create (held : owned.Held) (slot : Fin maxTextures) (flag : Bool) (maxId : Int) (texture : Texture) :
    OwnedTextures.Held ⟨Function.update owned.texture slot (some owned.heap.created.length),
      Function.update owned.loaded slot flag, maxId, { owned.heap with created := owned.heap.created ++ [texture] }⟩ := by
  intro other object stored
  dsimp only at stored ⊢
  rw [List.length_append, List.length_singleton]
  by_cases here : other = slot
  · subst here
    rw [Function.update_self] at stored
    cases stored
    exact Nat.lt_succ_self _
  · rw [Function.update_of_ne here] at stored
    exact Nat.lt_succ_of_lt (held other object stored)

theorem cleared_filled : Filled loads objects 0 .cleared where
  maxId := rfl
  unreleased := rfl
  loaded := fun _ => iff_of_false nofun fun both => Nat.not_lt_zero _ both.1
  holds := fun _ => iff_of_false nofun fun both => Nat.not_lt_zero _ both.1
  created := nofun
  covered := fun _ few => absurd few (Nat.not_lt_zero _)
  distinct := nofun

theorem initTextureOwned_of_found {i : Nat} {object : ObjectConfig} {slot : Fin maxTextures}
    (found : objects[i]? = some object) (same : object.id = i) (place : slot.val = i) :
    initTextureOwned loads objects owned i =
      if object.texture.val = [] then
        .ok { owned with loaded := Function.update owned.loaded slot false, maxId := max owned.maxId i }
      else .ok ⟨Function.update owned.texture slot (some owned.heap.created.length),
        Function.update owned.loaded slot (loads i object.texture.val), max owned.maxId i,
        { owned.heap with created := owned.heap.created ++
          [if loads i object.texture.val then .file object.texture.val else .placeholder] }⟩ := by
  have at' : objectAt objects (i : Int) = .ok object := objectAt_ok.mpr ⟨Int.natCast_nonneg i, found⟩
  have index : textureIndex (i : Int) = .ok slot := textureIndex_ok_val.mpr (by rw [place])
  have largest : (if (i : Int) > owned.maxId then (i : Int) else owned.maxId) = max owned.maxId i := by
    split <;> omega
  rw [initTextureOwned, at']
  change (objectAt objects object.id >>= fun named => textureIndex object.id >>= fun slot => _) = _
  rw [same, at', index, largest]
  split
  · rename_i empty
    exact if_pos empty
  · rename_i some
    exact if_neg some

theorem loadsAt_iff {i : Nat} {object : ObjectConfig} (found : objects[i]? = some object) :
    LoadsAt loads objects i ↔ object.texture.val ≠ [] ∧ loads i object.texture.val = true := by
  simp [LoadsAt, found]

theorem hasPath_iff {i : Nat} {object : ObjectConfig} (found : objects[i]? = some object) :
    HasPath objects i ↔ object.texture.val ≠ [] := by
  simp [HasPath, found]

theorem below_succ_iff {rounds : Nat} {slot other : Fin maxTextures} (place : slot.val = rounds) (apart : other ≠ slot) :
    other.val < rounds + 1 ↔ other.val < rounds := by
  have different : other.val ≠ rounds := fun same => apart (Fin.ext (same.trans place.symm))
  omega

theorem Filled.unused {rounds : Nat} {slot : Fin maxTextures} (filled : Filled loads objects rounds owned)
    (place : slot.val = rounds) : owned.texture slot = none := by
  have unfilled := mt (filled.holds slot).mp fun both => absurd both.1 (by omega)
  exact Option.not_isSome_iff_eq_none.mp unfilled

theorem Filled.skip {rounds : Nat} {object : ObjectConfig} {slot : Fin maxTextures}
    (filled : Filled loads objects rounds owned) (found : objects[rounds]? = some object) (place : slot.val = rounds)
    (empty : object.texture.val = []) : Filled loads objects (rounds + 1)
      { owned with loaded := Function.update owned.loaded slot false, maxId := max owned.maxId rounds } where
  maxId := by
    change max owned.maxId (rounds : Int) = _
    rw [filled.maxId]
    omega
  unreleased := filled.unreleased
  loaded := fun other => by
    dsimp only
    by_cases here : other = slot
    · subst here
      rw [place, loadsAt_iff found, Function.update_self]
      simp [empty]
    · rw [Function.update_of_ne here, below_succ_iff place here]
      exact filled.loaded other
  holds := fun other => by
    dsimp only
    by_cases here : other = slot
    · subst here
      rw [filled.unused place, place, hasPath_iff found]
      simp [empty]
    · rw [below_succ_iff place here]
      exact filled.holds other
  created := filled.created
  covered := filled.covered
  distinct := filled.distinct

theorem Filled.load {rounds : Nat} {object : ObjectConfig} {slot : Fin maxTextures}
    (filled : Filled loads objects rounds owned) (found : objects[rounds]? = some object) (place : slot.val = rounds)
    (some' : object.texture.val ≠ []) (texture : Texture) : Filled loads objects (rounds + 1)
      ⟨Function.update owned.texture slot (some owned.heap.created.length),
        Function.update owned.loaded slot (loads rounds object.texture.val), max owned.maxId rounds,
        { owned.heap with created := owned.heap.created ++ [texture] }⟩ where
  maxId := by
    change max owned.maxId (rounds : Int) = _
    rw [filled.maxId]
    omega
  unreleased := filled.unreleased
  loaded := fun other => by
    dsimp only
    by_cases here : other = slot
    · subst here
      rw [place, loadsAt_iff found, Function.update_self]
      simp [some']
    · rw [Function.update_of_ne here, below_succ_iff place here]
      exact filled.loaded other
  holds := fun other => by
    dsimp only
    by_cases here : other = slot
    · subst here
      rw [place, hasPath_iff found, Function.update_self]
      simp [some']
    · rw [Function.update_of_ne here, below_succ_iff place here]
      exact filled.holds other
  created := OwnedTextures.Held.create filled.created slot _ _ texture
  covered := fun object few => by
    dsimp only at few ⊢
    rw [List.length_append, List.length_singleton] at few
    by_cases new : object = owned.heap.created.length
    · exact ⟨slot, by rw [Function.update_self, new]⟩
    · obtain ⟨other, held⟩ := filled.covered object (by omega)
      have here : other ≠ slot := by
        rintro rfl
        cases (filled.unused place).symm.trans held
      exact ⟨other, by rw [Function.update_of_ne here, held]⟩
  distinct := fun first second object held also => by
    dsimp only at held also
    have old {other : Fin maxTextures} (apart : other ≠ slot)
        (stored : Function.update owned.texture slot (some owned.heap.created.length) other = some object) :
        owned.texture other = some object ∧ object < owned.heap.created.length := by
      rw [Function.update_of_ne apart] at stored
      exact ⟨stored, filled.created other object stored⟩
    by_cases one : first = slot
    · by_cases two : second = slot
      · exact one.trans two.symm
      · subst one
        rw [Function.update_self] at held
        cases held
        exact absurd (old two also).2 (Nat.lt_irrefl _)
    · by_cases two : second = slot
      · subst two
        rw [Function.update_self] at also
        cases also
        exact absurd (old one held).2 (Nat.lt_irrefl _)
      · exact filled.distinct first second object (old one held).1 (old two also).1

theorem run_initTextureOwned (ids : IdsArePositions objects) (few : objects.length ≤ maxTextures) (rounds : Nat) (within : rounds ≤ objects.length) :
    ∃ owned, run (initTextureOwned loads objects) .cleared (List.range rounds) = .ok owned ∧
      Filled loads objects rounds owned := by
  induction rounds with
  | zero => exact ⟨.cleared, rfl, cleared_filled⟩
  | succ last ih =>
    obtain ⟨before, reached, filled⟩ := ih (Nat.le_of_succ_le within)
    obtain ⟨object, found⟩ : ∃ object, objects[last]? = some object := ⟨_, List.getElem?_eq_getElem within⟩
    let slot : Fin maxTextures := ⟨last, by omega⟩
    have step : initTextureOwned loads objects before last = _ :=
      initTextureOwned_of_found found (ids last object found) (rfl : slot.val = last)
    rw [List.range_succ]
    by_cases empty : object.texture.val = []
    · rw [if_pos empty] at step
      exact ⟨_, run_concat_of_ok reached step, filled.skip found rfl empty⟩
    · rw [if_neg empty] at step
      exact ⟨_, run_concat_of_ok reached step, filled.load found rfl empty _⟩

def OwnedTextures.manager (owned : OwnedTextures) : TextureManager where
  texture := fun slot => ((owned.texture slot).bind fun object => owned.heap.created[object]?).getD .empty
  loaded := owned.loaded
  maxId := owned.maxId

theorem manager_created (held : owned.Held) (slot : Fin maxTextures) (flag : Bool) (maxId : Int) (texture : Texture) :
    OwnedTextures.manager ⟨Function.update owned.texture slot (some owned.heap.created.length),
      Function.update owned.loaded slot flag, maxId, { owned.heap with created := owned.heap.created ++ [texture] }⟩ =
      ⟨Function.update owned.manager.texture slot texture, Function.update owned.manager.loaded slot flag, maxId⟩ := by
  refine congrArg (fun textures => TextureManager.mk textures _ _) (funext fun other => ?_)
  by_cases here : other = slot
  · subst here
    simp
  · dsimp only
    rw [Function.update_of_ne here, Function.update_of_ne here]
    cases found : owned.texture other with
    | none => simp [OwnedTextures.manager, found]
    | some object =>
      have few := held other object found
      simp [OwnedTextures.manager, found, List.getElem?_append_left few]

theorem initTextureOwned_erases {reads : Bytes → Bool} {next : OwnedTextures} {i : Nat} (held : owned.Held)
    (taken : initTextureOwned (fun _ => reads) objects owned i = .ok next) :
    ∃ object, objects[i]? = some object ∧ initTexture reads objects owned.manager object = .ok next.manager ∧ next.Held := by
  obtain ⟨object, at', rest⟩ := bind_ok_iff.mp taken
  obtain ⟨named, found, rest⟩ := bind_ok_iff.mp rest
  obtain ⟨slot, index, rest⟩ := bind_ok_iff.mp rest
  refine ⟨object, (objectAt_ok.mp at').2, ?_⟩
  unfold initTexture
  dsimp only
  rw [found]
  change (textureIndex object.id >>= fun slot => _) = _ ∧ _
  rw [index]
  change (if named.texture.val = [] then _ else if reads named.texture.val = true then _ else _) = _ ∧ _
  by_cases empty : named.texture.val = []
  · rw [if_pos empty] at rest ⊢
    cases rest
    exact ⟨rfl, held⟩
  · rw [if_neg empty] at rest ⊢
    cases rest
    refine ⟨Eq.trans ?_ (congrArg Except.ok (manager_created held slot (reads named.texture.val) _ _).symm), held.create slot _ _ _⟩
    change _ = Except.ok (TextureManager.mk (Function.update owned.manager.texture slot
      (if reads named.texture.val = true then .file named.texture.val else .placeholder)) _ _)
    cases reads named.texture.val <;> rfl

/-- Without the ledger it is the table that the level is drawn with. -/
theorem initTexturesOwned_erases {reads : Bytes → Bool} (reached : initTexturesOwned (fun _ => reads) objects = .ok owned) :
    initTextureManager reads objects = .ok owned.manager := by
  have kept (k : Nat) (state next : OwnedTextures)
      (before : (objects.take k).foldlM (initTexture reads objects) clearedTextures = .ok state.manager ∧ state.Held)
      (_ : True) (taken : initTextureOwned (fun _ => reads) objects state k = .ok next) :
      (objects.take (k + 1)).foldlM (initTexture reads objects) clearedTextures = .ok next.manager ∧ next.Held := by
    obtain ⟨object, found, step, held⟩ := initTextureOwned_erases before.2 taken
    rw [List.take_add_one, found, List.foldlM_append, before.1]
    refine ⟨?_, held⟩
    change (initTexture reads objects state.manager object >>= pure) = _
    rw [step]
    rfl
  have filled := run_range_invariant kept ⟨rfl, fun _ _ held => by cases held⟩ (along_of_forall (fun _ _ => trivial) _ _) reached
  rw [List.take_length] at filled
  exact filled.1

def OwnedTextures.released (owned : OwnedTextures) (i : Nat) : Option Nat :=
  if inside : i < maxTextures then
    if owned.loaded ⟨i, inside⟩ = true then owned.texture ⟨i, inside⟩ else none
  else none

def OwnedTextures.freed (owned : OwnedTextures) (rounds : Nat) : OwnedTextures where
  texture := owned.texture
  loaded := fun slot => owned.loaded slot && decide (rounds ≤ slot.val)
  maxId := owned.maxId
  heap := { owned.heap with released := owned.heap.released ++ (List.range rounds).filterMap owned.released }

theorem freed_succ {rounds : Nat} (slot : Fin maxTextures) (place : slot.val = rounds) :
    owned.freed (rounds + 1) = ⟨owned.texture, Function.update (owned.freed rounds).loaded slot false, owned.maxId,
      { owned.heap with released := (owned.freed rounds).heap.released ++ (owned.released rounds).toList }⟩ := by
  have flags : (owned.freed (rounds + 1)).loaded = Function.update (owned.freed rounds).loaded slot false := by
    funext other
    by_cases here : other = slot
    · subst here
      have late : ¬ rounds + 1 ≤ other.val := by omega
      simp only [OwnedTextures.freed, Function.update_self, decide_eq_false late, Bool.and_false]
    · have different : other.val ≠ rounds := fun same => here (Fin.ext (same.trans place.symm))
      have same : rounds + 1 ≤ other.val ↔ rounds ≤ other.val := by omega
      rw [Function.update_of_ne here]
      simp only [OwnedTextures.freed, same]
  have releases : (List.range (rounds + 1)).filterMap owned.released =
      (List.range rounds).filterMap owned.released ++ (owned.released rounds).toList := by
    rw [List.range_succ, List.filterMap_append]
    cases found : owned.released rounds <;> simp [found]
  rw [← flags, OwnedTextures.freed, releases]
  simp only [OwnedTextures.freed, List.append_assoc]

theorem freeTexture_freed {rounds : Nat} (inside : rounds < maxTextures) :
    freeTexture (owned.freed rounds) rounds = .ok (owned.freed (rounds + 1)) := by
  let slot : Fin maxTextures := ⟨rounds, inside⟩
  have place : slot.val = rounds := rfl
  have index : textureIndex (rounds : Int) = .ok slot := textureIndex_ok_val.mpr rfl
  have flag : (owned.freed rounds).loaded slot = owned.loaded slot := by simp [OwnedTextures.freed, slot]
  rw [freeTexture, index, freed_succ slot place]
  change (if (owned.freed rounds).loaded slot = true then _ else _) = _
  by_cases loaded : owned.loaded slot = true
  · have releases : owned.released rounds = owned.texture slot := by
      rw [OwnedTextures.released, dif_pos inside, if_pos loaded]
    rw [if_pos (flag.trans loaded), releases]
    cases held : owned.texture slot with
    | none => simp [OwnedTextures.unload, OwnedTextures.freed, held, pure, Except.pure]
    | some texture => simp [OwnedTextures.unload, OwnedTextures.freed, held, pure, Except.pure, Ledger.release]
  · have nothing : owned.released rounds = none := by
      rw [OwnedTextures.released, dif_pos inside, if_neg loaded]
    have same : Function.update (owned.freed rounds).loaded slot false = (owned.freed rounds).loaded := by
      rw [Function.update_eq_self_iff, flag]
      exact (Bool.not_eq_true _ |>.mp loaded).symm
    rw [if_neg (flag ▸ loaded), nothing, same]
    simp [OwnedTextures.freed, pure, Except.pure]

theorem run_freeTexture (owned : OwnedTextures) {rounds : Nat} (inside : rounds ≤ maxTextures) :
    run freeTexture owned (List.range rounds) = .ok (owned.freed rounds) := by
  induction rounds with
  | zero =>
    rw [List.range_zero, run_nil, OwnedTextures.freed]
    simp
  | succ last ih =>
    rw [List.range_succ]
    exact run_concat_of_ok (ih (Nat.le_of_succ_le inside)) (freeTexture_freed inside)

theorem mem_released_iff {rounds texture : Nat} (inside : rounds ≤ maxTextures) :
    texture ∈ (List.range rounds).filterMap owned.released ↔
      ∃ slot : Fin maxTextures, slot.val < rounds ∧ owned.loaded slot = true ∧ owned.texture slot = some texture := by
  rw [List.mem_filterMap]
  constructor
  · rintro ⟨i, member, released⟩
    have below := List.mem_range.mp member
    have slotInside : i < maxTextures := Nat.lt_of_lt_of_le below inside
    rw [OwnedTextures.released, dif_pos slotInside] at released
    split at released
    · rename_i loaded
      exact ⟨⟨i, slotInside⟩, below, loaded, released⟩
    · cases released
  · rintro ⟨slot, below, loaded, held⟩
    refine ⟨slot.val, List.mem_range.mpr below, ?_⟩
    rw [OwnedTextures.released, dif_pos slot.isLt, if_pos loaded, held]

theorem nodup_released (distinct : ∀ first second texture, owned.texture first = some texture →
    owned.texture second = some texture → first = second) (rounds : Nat) :
    ((List.range rounds).filterMap owned.released).Nodup := by
  have held {i texture : Nat} (released : texture ∈ owned.released i) :
      ∃ slot : Fin maxTextures, slot.val = i ∧ owned.texture slot = some texture := by
    rw [Option.mem_def, OwnedTextures.released] at released
    split at released
    · rename_i inside
      split at released
      · exact ⟨⟨i, inside⟩, rfl, released⟩
      · cases released
    · cases released
  refine List.Nodup.filterMap (fun first second texture one two => ?_) List.nodup_range
  obtain ⟨slot, rfl, there⟩ := held one
  obtain ⟨other, rfl, also⟩ := held two
  exact congrArg Fin.val (distinct slot other texture there also)

theorem freed_released (owned : OwnedTextures) (rounds : Nat) :
    (List.range rounds).filterMap (owned.freed rounds).released = [] := by
  rw [List.filterMap_eq_nil_iff]
  intro i member
  have below := List.mem_range.mp member
  rw [OwnedTextures.released]
  split
  · rename_i inside
    have unloaded : (owned.freed rounds).loaded ⟨i, inside⟩ = false := by
      have early : ¬ rounds ≤ i := Nat.not_le_of_lt below
      simp [OwnedTextures.freed, early]
    rw [unloaded, if_neg Bool.false_ne_true]
  · rfl

theorem freed_freed_heap (owned : OwnedTextures) (rounds : Nat) :
    ((owned.freed rounds).freed rounds).heap = (owned.freed rounds).heap := by
  have twice : ((owned.freed rounds).freed rounds).heap = { (owned.freed rounds).heap with
      released := (owned.freed rounds).heap.released ++ (List.range rounds).filterMap (owned.freed rounds).released } := rfl
  rw [twice, freed_released, List.append_nil]

/-! ## What is released -/

/-- Every path can be read, and the object of the largest id has none. -/
def AllReleased (loads : Nat → Bytes → Bool) (objects : List ObjectConfig) : Prop :=
  ∀ (i : Nat) (object : ObjectConfig), objects[i]? = some object → object.texture.val ≠ [] →
    loads i object.texture.val = true ∧ i + 1 < objects.length

theorem Filled.released_iff (filled : Filled loads objects objects.length owned) {rounds texture : Nat}
    (inside : rounds ≤ maxTextures) {slot : Fin maxTextures} (held : owned.texture slot = some texture) :
    texture ∈ (List.range rounds).filterMap owned.released ↔ slot.val < rounds ∧ LoadsAt loads objects slot.val := by
  rw [mem_released_iff inside]
  constructor
  · rintro ⟨other, below, loaded, also⟩
    rw [filled.distinct other slot texture also held] at below loaded
    exact ⟨below, ((filled.loaded slot).mp loaded).2⟩
  · rintro ⟨below, readable⟩
    have used := (filled.holds slot).mp (by rw [held]; rfl)
    exact ⟨slot, below, (filled.loaded slot).mpr ⟨used.1, readable⟩, held⟩

theorem balanced_iff_of_nodup {Kind : Type} {ledger : Ledger Kind} (nodup : ledger.released.Nodup) :
    ledger.Balanced ↔ ∀ object < ledger.created.length, object ∈ ledger.released := by
  constructor
  · exact fun balanced object few => List.count_pos_iff.mp (by rw [balanced object few]; exact Nat.one_pos)
  · exact fun all object few => List.count_eq_one_of_mem nodup (all object few)

/-- Behind the last round every texture is released exactly where `AllReleased` says so. -/
theorem Filled.balanced_iff (filled : Filled loads objects objects.length owned) (few : objects.length ≤ maxTextures) :
    (owned.freed (objects.length - 1)).heap.Balanced ↔ AllReleased loads objects := by
  have inside : objects.length - 1 ≤ maxTextures := by omega
  have released : (owned.freed (objects.length - 1)).heap.released =
      (List.range (objects.length - 1)).filterMap owned.released := by
    rw [OwnedTextures.freed, filled.unreleased]
    exact List.nil_append _
  rw [balanced_iff_of_nodup (by rw [released]; exact nodup_released filled.distinct _), released]
  constructor
  · intro all i object found path
    have below := (List.getElem?_eq_some_iff.mp found).1
    let slot : Fin maxTextures := ⟨i, by omega⟩
    obtain ⟨texture, held⟩ := Option.isSome_iff_exists.mp ((filled.holds slot).mpr ⟨below, object, found, path⟩)
    obtain ⟨early, readable⟩ := (filled.released_iff inside held).mp (all texture (filled.created slot texture held))
    change i < objects.length - 1 at early
    exact ⟨((loadsAt_iff found).mp readable).2, by omega⟩
  · intro all texture created
    obtain ⟨slot, held⟩ := filled.covered texture created
    obtain ⟨-, object, found, path⟩ := (filled.holds slot).mp (by rw [held]; rfl)
    obtain ⟨readable, early⟩ := all slot.val object found path
    exact (filled.released_iff inside held).mpr ⟨by omega, (loadsAt_iff found).mpr ⟨path, readable⟩⟩

/-- The textures of a level are released once exactly where every file can be read and the
last object has none. -/
theorem releasesTextures_iff (loads : Nat → Bytes → Bool) (objects : List ObjectConfig) (ids : IdsArePositions objects)
    (few : objects.length ≤ maxTextures) : ReleasesTextures loads objects ↔ AllReleased loads objects := by
  obtain ⟨owned, reached, filled⟩ : ∃ owned, initTexturesOwned loads objects = .ok owned ∧ _ :=
    run_initTextureOwned ids few objects.length (Nat.le_refl _)
  have rounds : owned.maxId.toNat = objects.length - 1 := by rw [filled.maxId]; rfl
  have inside : objects.length - 1 ≤ maxTextures := by omega
  have freed : freeTextureManager owned = .ok (owned.freed (objects.length - 1)) := by
    rw [freeTextureManager, rounds]
    exact run_freeTexture owned inside
  have again : freeTextureManager (owned.freed (objects.length - 1)) =
      .ok ((owned.freed (objects.length - 1)).freed (objects.length - 1)) := by
    rw [freeTextureManager]
    change run freeTexture _ (List.range owned.maxId.toNat) = _
    rw [rounds]
    exact run_freeTexture _ inside
  rw [← filled.balanced_iff few]
  constructor
  · rintro ⟨_, _, _, reachedAgain, freedAgain, -, balanced, -⟩
    cases reached.symm.trans reachedAgain
    cases freed.symm.trans freedAgain
    exact balanced
  · intro balanced
    refine ⟨owned, _, _, reached, freed, again, balanced, fun texture member => ?_, ?_⟩
    · rw [OwnedTextures.freed, filled.unreleased] at member
      obtain ⟨slot, -, -, held⟩ := (mem_released_iff inside).mp member
      exact filled.created slot texture held
    · exact freed_freed_heap owned (objects.length - 1)

def heroAndWall : List ObjectConfig :=
  [⟨0, emptyString, truncated 256 room256 (text "hero.png"), emptyString⟩, ⟨1, emptyString, emptyString, emptyString⟩]

theorem heroAndWall_releasesTextures_iff :
    ReleasesTextures (fun _ _ => true) heroAndWall ↔ AllReleased (fun _ _ => true) heroAndWall := by
  refine releasesTextures_iff _ heroAndWall ?_ (by decide)
  rintro (_ | _ | i) object found
  · cases found
    rfl
  · cases found
    rfl
  · cases found

def heroAlone : List ObjectConfig := [⟨0, emptyString, truncated 256 room256 (text "hero.png"), emptyString⟩]

/-- Its texture stands in the slot of the largest id and is never released. -/
theorem heroAlone_not_releasesTextures : ¬ ReleasesTextures (fun _ _ => true) heroAlone := by
  rintro ⟨owned, freed, -, reached, done, -, balanced, -⟩
  cases reached
  cases done
  exact absurd (balanced 0 (by decide)) (by decide)

end Trigger.Engine
