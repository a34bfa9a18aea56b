import Trigger.Engine.Indices

/-! How the parts of a frame can stop: the textures only by an index outside of their
table, and the console by no wild access.
-/

set_option autoImplicit false

namespace Trigger.Engine
open Foundation Config Terminal

variable {K : Type} {bad : Fault}

@[simp] theorem avoids_textureIndex (other : bad ≠ .outOfBounds) (id : Int) : Avoids bad (textureIndex id) := by
  unfold textureIndex
  split
  · exact avoids_ok _
  · exact avoids_error_iff.mpr other.symm

@[simp] theorem avoids_objectAt (other : bad ≠ .outOfBounds) (objects : List ObjectConfig) (id : Int) :
    Avoids bad (objectAt objects id) := by
  unfold objectAt
  split
  · split
    · exact avoids_ok _
    · exact avoids_error_iff.mpr other.symm
  · exact avoids_error_iff.mpr other.symm

theorem avoids_initTextureManager (other : bad ≠ .outOfBounds) (loads : Bytes → Bool) (objects : List ObjectConfig) :
    Avoids bad (initTextureManager loads objects) := by
  refine avoids_foldlM (fun manager object _ => ?_) _
  simp only [initTexture, avoids_bind_iff, avoids_objectAt other, avoids_textureIndex other, true_and]
  intro named _ slot _
  split
  · exact avoids_pure _
  · split <;> exact avoids_pure _

theorem avoids_drawMap (other : bad ≠ .outOfBounds) (textures : TextureManager) (map : MapLayout) :
    Avoids bad (drawMap textures map) :=
  avoids_mapM fun _ _ => avoids_map_iff.mpr (avoids_textureIndex other _)

theorem avoids_drawAllEntities (other : bad ≠ .outOfBounds) (textures : TextureManager) (manager : EntityManager K) :
    Avoids bad (drawAllEntities textures manager) :=
  avoids_mapM fun entity _ => by
    unfold drawEntity
    split <;> exact avoids_map_iff.mpr (avoids_textureIndex other _)

theorem avoids_gameDraw (other : bad ≠ .outOfBounds) (engine : EngineContext K) : Avoids bad (gameDraw engine) := by
  unfold gameDraw
  split <;> simp [avoids_drawMap other, avoids_drawAllEntities other]

theorem avoids_getMap [Scalar K] {file : Option Json} (playable : Playable file) (other : bad ≠ .outOfBounds)
    (loads : Bytes → Bool) : Avoids bad (getMap loads file : Except Fault (Option (LoadedMap K))) := by
  rcases playable with refused | ⟨stored, config, parsed, read, -⟩
  · simp [getMap, refused]
  · obtain ⟨spawning, spawned⟩ : ∃ spawning : Spawning K, spawnEntities config = .ok spawning :=
      spawnEntities_succeeds config
    simp [getMap, parsed, read, spawned, avoids_initTextureManager other]

@[simp] theorem avoids_strcpy {size : Nat} (source : Bytes) :
    Avoids .wildAccess (strcpy source : Except Fault (CharArray size)) := by
  unfold strcpy
  split <;> simp

@[simp] theorem avoids_store {size : Nat} (buffer : Buffer size) (position : Nat) (byte : UInt8) :
    Avoids .wildAccess (buffer.store position byte) := by
  unfold Buffer.store
  split <;> simp

@[simp] theorem avoids_string {size : Nat} (buffer : Buffer size) : Avoids .wildAccess buffer.string := by
  unfold Buffer.string
  split <;> simp

theorem avoids_onKey {pressed : Bool} {branch : Session K → Except Fault (Session K)}
    (avoids : ∀ session, Avoids .wildAccess (branch session)) (session : Session K) :
    Avoids .wildAccess (onKey pressed branch session) := by
  unfold onKey
  split
  · exact avoids session
  · simp

@[simp] theorem avoids_updateInput [Scalar K] (session : Session K) (levelName : Bytes)
    (input : ConsoleInput K) : Avoids .wildAccess (updateInput session levelName input) := by
  have character : Avoids .wildAccess (charStep session levelName input) := by
    unfold charStep
    split
    · simp [storeChar]
    · split <;> simp
  have enter (session : Session K) : Avoids .wildAccess (enterStep session) := by simp [enterStep]
  have backspace (session : Session K) : Avoids .wildAccess (backspaceStep session) := by
    unfold backspaceStep
    split <;> simp
  simp only [updateInput, avoids_bind_iff, character, true_and]
  intro typed _
  split
  · simp [f4Step]
  · exact avoids_bind_iff.mpr ⟨avoids_onKey enter _, fun _ _ => avoids_onKey backspace _⟩

@[simp] theorem avoids_clearScan (escaped : Bool) (memory : Bytes) :
    Avoids .wildAccess (clearScan escaped memory) := by
  fun_induction clearScan escaped memory <;> simp_all

@[simp] theorem avoids_engineUpdateConsole (session : Session K) (output : ReadResult) :
    Avoids .wildAccess (engineUpdateConsole session output) := by
  cases output with
  | bytes chunk =>
    have append : Avoids .wildAccess (appendOutput session.console chunk) := by
      simp only [appendOutput, clearStr, avoids_bind_iff, avoids_map_iff, avoids_clearScan, true_and]
      intro cleaned _
      split <;> simp [strcat]
    simp [engineUpdateConsole, append]
  | wouldBlock => simp [engineUpdateConsole]
  | failed => simp [engineUpdateConsole]
  | closed => simp [engineUpdateConsole]

theorem avoids_updateConsole [Scalar K] (engine : EngineContext K) (input : FrameInput K) :
    Avoids .wildAccess (updateConsole engine input) := by
  unfold updateConsole
  split <;> simp

end Trigger.Engine
