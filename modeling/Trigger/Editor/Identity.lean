import Trigger.Editor.Merging

/-! When the merged palette keeps the identity of its objects: new files are
numbered from the largest loaded id, but the ids zero and one never count.
-/

set_option autoImplicit false

namespace Trigger.Editor
open Foundation Config

structure Mergeable (names : List Bytes) (oldObjects : List ObjectConfig) : Prop where
  distinct : (oldObjects.map ObjectConfig.id).Nodup
  nonneg : ∀ src ∈ oldObjects, 0 ≤ src.id
  files : names.Nodup
  plain : ∀ fname ∈ names, slash ∉ fname
  short : ∀ fname ∈ tileFiles names, (resourcePath fname).length < 256
  corrected : ∀ src ∈ oldObjects, (correctedTexture src).length < 256
  textures : oldObjects.Pairwise fun first second =>
    correctedTexture first ≠ [] → correctedTexture first ≠ correctedTexture second

structure KeepsIdentity (names : List Bytes) (oldObjects palette : List ObjectConfig) : Prop where
  distinct : (palette.map ObjectConfig.id).Nodup
  empty : ∃ object ∈ palette, object.id = 0
  player : ∃ object ∈ palette, object.id = 1 ∧ object.entity.val = text "player"
  kept : ∀ src ∈ oldObjects, src.id ≠ 0 → src.id ≠ 1 →
    ∃ object ∈ palette, object.id = src.id ∧ object.name = src.name ∧ object.entity = src.entity
  files : ∀ fname ∈ tileFiles names,
    palette.countP (fun object => object.texture.val = resourcePath fname) = 1

/-- The listed files that no loaded object shows. -/
def newFiles (names : List Bytes) (oldObjects : List ObjectConfig) : List Bytes :=
  (tileFiles names).filter fun fname =>
    !oldObjects.any fun src => correctedTexture src = resourcePath fname

def NumbersFreely (names : List Bytes) (oldObjects : List ObjectConfig) : Prop :=
  newFiles names oldObjects = [] ∨
    (∃ src ∈ oldObjects, 2 ≤ src.id) ∧
      ∀ src ∈ oldObjects, src.id + (newFiles names oldObjects).length ≤ intMax

def Copies (oldObjects loaded : List ObjectConfig) : Prop :=
  List.Forall₂ (fun src object => object.id = src.id ∧
    object.texture.val = correctedTexture src ∧
    (src.id ≠ 0 → src.id ≠ 1 → object.name = src.name ∧ object.entity = src.entity) ∧
    (src.id = 1 → object.entity.val = text "player")) oldObjects loaded

theorem copies_of_short {oldObjects : List ObjectConfig}
    (corrected : ∀ src ∈ oldObjects, (correctedTexture src).length < 256) :
    ∃ loaded, oldObjects.mapM copyLoaded = .ok loaded ∧ Copies oldObjects loaded := by
  induction oldObjects with
  | nil => exact ⟨[], rfl, .nil⟩
  | cons src rest ih =>
    rw [List.forall_mem_cons] at corrected
    obtain ⟨object, copied, facts⟩ := copyLoaded_ok corrected.1
    obtain ⟨loaded, traversed, copies⟩ := ih corrected.2
    refine ⟨object :: loaded, ?_, .cons facts copies⟩
    rw [List.mapM_cons, copied, traversed]
    rfl

theorem Copies.ids {oldObjects loaded : List ObjectConfig} (copies : Copies oldObjects loaded) :
    loaded.map ObjectConfig.id = oldObjects.map ObjectConfig.id := by
  induction copies with
  | nil => rfl
  | cons facts _ ih => rw [List.map_cons, List.map_cons, facts.1, ih]

theorem Copies.textures {oldObjects loaded : List ObjectConfig} (copies : Copies oldObjects loaded) :
    loaded.map (fun object => object.texture.val) = oldObjects.map correctedTexture := by
  induction copies with
  | nil => rfl
  | cons facts _ ih => rw [List.map_cons, List.map_cons, facts.2.1, ih]

theorem Copies.exists_of_mem {oldObjects loaded : List ObjectConfig} {src : ObjectConfig}
    (copies : Copies oldObjects loaded) (member : src ∈ oldObjects) :
    ∃ object ∈ loaded, object.id = src.id ∧
      (src.id ≠ 0 → src.id ≠ 1 → object.name = src.name ∧ object.entity = src.entity) ∧
      (src.id = 1 → object.entity.val = text "player") := by
  induction copies with
  | nil => cases member
  | cons facts _ ih =>
    rcases List.mem_cons.mp member with rfl | later
    · exact ⟨_, List.mem_cons_self .., facts.1, facts.2.2⟩
    · obtain ⟨object, listed, found⟩ := ih later
      exact ⟨object, List.mem_cons_of_mem _ listed, found⟩

theorem mem_fixedObjects_iff {oldObjects : List ObjectConfig} {object : ObjectConfig} :
    object ∈ fixedObjects oldObjects ↔
      object = emptyObject ∧ (∀ src ∈ oldObjects, src.id ≠ 0) ∨
      object = playerObject ∧ (∀ src ∈ oldObjects, src.id ≠ 1) := by
  simp only [fixedObjects, List.mem_append]
  apply or_congr
  · split
    case isTrue loaded => simpa using fun _ => loaded
    case isFalse loaded =>
      simp only [List.any_eq_true, decide_eq_true_eq, not_exists, not_and] at loaded
      exact List.mem_singleton.trans (and_iff_left loaded).symm
  · split
    case isTrue loaded => simpa using fun _ => loaded
    case isFalse loaded =>
      simp only [List.any_eq_true, decide_eq_true_eq, not_exists, not_and] at loaded
      exact List.mem_singleton.trans (and_iff_left loaded).symm

theorem fixedObjects_distinct (oldObjects : List ObjectConfig) :
    ((fixedObjects oldObjects).map ObjectConfig.id).Nodup := by
  unfold fixedObjects
  split <;> split <;> simp [emptyObject, playerObject]

theorem withFixed_distinct {oldObjects loaded : List ObjectConfig}
    (distinct : (oldObjects.map ObjectConfig.id).Nodup) (copies : Copies oldObjects loaded) :
    ((withFixed oldObjects loaded).map ObjectConfig.id).Nodup := by
  rw [withFixed_eq, List.map_append, copies.ids]
  refine List.Nodup.append distinct (fixedObjects_distinct oldObjects) fun id old new => ?_
  obtain ⟨src, loadedSrc, rfl⟩ := List.mem_map.mp old
  obtain ⟨object, appended, same⟩ := List.mem_map.mp new
  rcases mem_fixedObjects_iff.mp appended with ⟨rfl, absent⟩ | ⟨rfl, absent⟩
  · exact absent src loadedSrc same.symm
  · exact absent src loadedSrc same.symm

theorem withFixed_empty {oldObjects loaded : List ObjectConfig} (copies : Copies oldObjects loaded) :
    ∃ object ∈ withFixed oldObjects loaded, object.id = 0 := by
  rw [withFixed_eq]
  by_cases present : ∃ src ∈ oldObjects, src.id = 0
  · obtain ⟨src, member, zero⟩ := present
    obtain ⟨object, listed, same, -⟩ := copies.exists_of_mem member
    exact ⟨object, List.mem_append_left _ listed, same.trans zero⟩
  · push Not at present
    exact ⟨emptyObject, List.mem_append_right _ (mem_fixedObjects_iff.mpr (.inl ⟨rfl, present⟩)), rfl⟩

theorem withFixed_player {oldObjects loaded : List ObjectConfig} (copies : Copies oldObjects loaded) :
    ∃ object ∈ withFixed oldObjects loaded,
      object.id = 1 ∧ object.entity.val = text "player" := by
  rw [withFixed_eq]
  by_cases present : ∃ src ∈ oldObjects, src.id = 1
  · obtain ⟨src, member, one⟩ := present
    obtain ⟨object, listed, same, -, player⟩ := copies.exists_of_mem member
    exact ⟨object, List.mem_append_left _ listed, same.trans one, player one⟩
  · push Not at present
    exact ⟨playerObject, List.mem_append_right _ (mem_fixedObjects_iff.mpr (.inr ⟨rfl, present⟩)),
      rfl, rfl⟩

theorem ne_heroFile_of_tileFiles {names : List Bytes} {fname : Bytes} (listed : fname ∈ tileFiles names) :
    fname ≠ heroFile := by
  have kept := List.of_mem_filter listed
  simp only [Bool.and_eq_true, decide_eq_true_eq] at kept
  exact kept.2

theorem fixedObjects_texture {oldObjects : List ObjectConfig} {fname : Bytes} (other : fname ≠ heroFile) :
    ∀ object ∈ fixedObjects oldObjects, object.texture.val ≠ resourcePath fname := by
  intro object appended same
  rcases mem_fixedObjects_iff.mp appended with ⟨rfl, -⟩ | ⟨rfl, -⟩
  · exact resourcePath_ne_nil fname same.symm
  · exact other (resourcePath_eq_player_iff.mp same.symm)

theorem withFixed_texture {oldObjects loaded : List ObjectConfig} {fname : Bytes}
    (copies : Copies oldObjects loaded) (other : fname ≠ heroFile) :
    (withFixed oldObjects loaded).countP (fun object => object.texture.val = resourcePath fname) =
      oldObjects.countP fun src => correctedTexture src = resourcePath fname := by
  have none : (fixedObjects oldObjects).countP
      (fun object => object.texture.val = resourcePath fname) = 0 :=
    List.countP_eq_zero.mpr fun object appended => by
      simpa using fixedObjects_texture other object appended
  have counted := congrArg (List.countP fun texture => decide (texture = resourcePath fname))
    copies.textures
  rw [List.countP_map, List.countP_map] at counted
  rw [withFixed_eq, List.countP_append, none, Nat.add_zero]
  exact counted

theorem missingFiles_withFixed {oldObjects loaded : List ObjectConfig} {names : List Bytes}
    (copies : Copies oldObjects loaded) (others : ∀ fname ∈ names, fname ≠ heroFile) :
    missingFiles (withFixed oldObjects loaded) names =
      names.filter fun fname => !oldObjects.any fun src => correctedTexture src = resourcePath fname := by
  refine List.filter_congr fun fname listed => ?_
  have counted := withFixed_texture copies (others fname listed)
  refine congrArg not (Bool.eq_iff_iff.mpr ?_)
  rw [List.any_eq_true, List.any_eq_true, ← List.countP_pos_iff, ← List.countP_pos_iff, counted]

theorem mergeObjectPalette_eq {names : List Bytes} {oldObjects : List ObjectConfig}
    (mergeable : Mergeable names oldObjects) :
    ∃ loaded, Copies oldObjects loaded ∧
      mergeObjectPalette (directoryListing names) oldObjects =
        let maxId := oldObjects.foldl trackMaxId 0
        let added := newFiles names oldObjects
        if added = [] ∨ maxId + added.length ≤ intMax then
          .ok (withFixed oldObjects loaded ++ addedObjects maxId added)
        else .error .signedOverflow := by
  obtain ⟨loaded, traversed, copies⟩ := copies_of_short mergeable.corrected
  refine ⟨loaded, copies, ?_⟩
  have distinct : (tileFiles names).Nodup := mergeable.files.filter _
  have files := mergePngs_eq distinct mergeable.short
    ⟨withFixed oldObjects loaded, oldObjects.foldl trackMaxId 0⟩
  have missing : missingFiles (withFixed oldObjects loaded) (tileFiles names) = newFiles names oldObjects :=
    missingFiles_withFixed copies fun fname => ne_heroFile_of_tileFiles
  simp only [missing] at files
  rw [mergeObjectPalette, traversed, pngNames_directoryListing mergeable.plain]
  simp only [bind, Except.bind, files]
  by_cases room : newFiles names oldObjects = [] ∨
      oldObjects.foldl trackMaxId 0 + ((newFiles names oldObjects).length : Int) ≤ intMax
  · rw [if_pos room, if_pos room]
    rfl
  · rw [if_neg room, if_neg room]

theorem atMost_of_textures {names : List Bytes} {oldObjects : List ObjectConfig} {fname : Bytes}
    (mergeable : Mergeable names oldObjects) :
    oldObjects.countP (fun src => correctedTexture src = resourcePath fname) ≤ 1 := by
  have textures := mergeable.textures
  clear mergeable
  induction oldObjects with
  | nil => simp
  | cons src rest ih =>
    rw [List.pairwise_cons] at textures
    by_cases shows : correctedTexture src = resourcePath fname
    · have none : rest.countP (fun src => correctedTexture src = resourcePath fname) = 0 :=
        List.countP_eq_zero.mpr fun other later same => by
          have apart := textures.1 other later (shows ▸ resourcePath_ne_nil fname)
          exact apart (shows.trans (of_decide_eq_true same).symm)
      have counted : (src :: rest).countP (fun src => correctedTexture src = resourcePath fname) =
          rest.countP (fun src => correctedTexture src = resourcePath fname) + 1 :=
        List.countP_cons_of_pos (by simpa using shows)
      omega
    · rw [List.countP_cons_of_neg (by simpa using shows)]
      exact ih textures.2

theorem addedObjects_countP (maxId : Int) {added : List Bytes} {fname : Bytes}
    (distinct : added.Nodup) (short : ∀ fname ∈ added, (resourcePath fname).length < 256) :
    (addedObjects maxId added).countP (fun object => object.texture.val = resourcePath fname) =
      if fname ∈ added then 1 else 0 := by
  have counted := congrArg (List.countP fun texture => decide (texture = resourcePath fname))
    (addedObjects_texture maxId short)
  rw [List.countP_map, List.countP_map] at counted
  refine counted.trans ?_
  rw [← distinct.count, List.count]
  refine List.countP_congr fun other _ => ?_
  simp [resourcePath_injective.eq_iff]

theorem merged_files {names : List Bytes} {oldObjects loaded : List ObjectConfig} (maxId : Int)
    (mergeable : Mergeable names oldObjects) (copies : Copies oldObjects loaded) :
    ∀ fname ∈ tileFiles names,
      (withFixed oldObjects loaded ++ addedObjects maxId (newFiles names oldObjects)).countP
        (fun object => object.texture.val = resourcePath fname) = 1 := by
  intro fname listed
  have distinct : (newFiles names oldObjects).Nodup := (mergeable.files.filter _).filter _
  have short : ∀ fname ∈ newFiles names oldObjects, (resourcePath fname).length < 256 :=
    fun fname member => mergeable.short fname (List.mem_of_mem_filter member)
  rw [List.countP_append, withFixed_texture copies (ne_heroFile_of_tileFiles listed), addedObjects_countP maxId distinct short]
  have atMost : oldObjects.countP (fun src => correctedTexture src = resourcePath fname) ≤ 1 :=
    atMost_of_textures mergeable
  by_cases shown : ∃ src ∈ oldObjects, correctedTexture src = resourcePath fname
  · have positive : 0 < oldObjects.countP fun src => correctedTexture src = resourcePath fname :=
      List.countP_pos_iff.mpr (by simpa using shown)
    have old : fname ∉ newFiles names oldObjects := by simpa [newFiles, listed] using shown
    rw [if_neg old]
    omega
  · have zero : oldObjects.countP (fun src => correctedTexture src = resourcePath fname) = 0 :=
      List.countP_eq_zero.mpr (by simpa using shown)
    have new : fname ∈ newFiles names oldObjects := by simpa [newFiles, listed] using shown
    rw [zero, if_pos new]

theorem merged_distinct {names : List Bytes} {oldObjects loaded : List ObjectConfig}
    (mergeable : Mergeable names oldObjects) (copies : Copies oldObjects loaded)
    (counted : newFiles names oldObjects = [] ∨ ∃ src ∈ oldObjects, 2 ≤ src.id) :
    ((withFixed oldObjects loaded ++ addedObjects (oldObjects.foldl trackMaxId 0)
      (newFiles names oldObjects)).map ObjectConfig.id).Nodup := by
  have base := withFixed_distinct mergeable.distinct copies
  rcases counted with none | ⟨large, member, two⟩
  · rw [none, addedObjects, List.append_nil]
    exact base
  obtain ⟨-, above, -⟩ := trackMaxId_spec oldObjects 0
  have atLeast := above large member two
  rw [List.map_append]
  refine List.Nodup.append base (addedObjects_distinct _ _) fun id old new => ?_
  obtain ⟨object, added, rfl⟩ := List.mem_map.mp new
  have fresh := addedObjects_id object added
  rw [withFixed_eq, List.map_append, copies.ids, List.mem_append] at old
  rcases old with old | old
  · obtain ⟨src, loadedSrc, same⟩ := List.mem_map.mp old
    by_cases small : 2 ≤ src.id
    · have := above src loadedSrc small
      omega
    · omega
  · obtain ⟨fixed, appended, same⟩ := List.mem_map.mp old
    rcases mem_fixedObjects_iff.mp appended with ⟨rfl, -⟩ | ⟨rfl, -⟩
    · simp only [emptyObject] at same
      omega
    · simp only [playerObject] at same
      omega

/-- Without a loaded object numbered from two on, the first added object takes the player's number. -/
theorem large_of_merged_distinct {names : List Bytes} {oldObjects loaded : List ObjectConfig}
    (mergeable : Mergeable names oldObjects) (copies : Copies oldObjects loaded)
    (added : newFiles names oldObjects ≠ [])
    (distinct : ((withFixed oldObjects loaded ++ addedObjects (oldObjects.foldl trackMaxId 0)
      (newFiles names oldObjects)).map ObjectConfig.id).Nodup) : ∃ src ∈ oldObjects, 2 ≤ src.id := by
  by_contra small
  push Not at small
  obtain ⟨-, -, attained⟩ := trackMaxId_spec oldObjects 0
  -- Every loaded id is zero or one, so the count starts at one, the player's id.
  have zero : oldObjects.foldl trackMaxId 0 = 0 := by
    rcases attained with same | ⟨src, member, notZero, notOne, -⟩
    · exact same
    · have nonneg := mergeable.nonneg src member
      have below := small src member
      omega
  obtain ⟨player, listed, one, -⟩ := withFixed_player copies
  obtain ⟨fname, rest, first⟩ := List.exists_cons_of_ne_nil added
  rw [zero, first, List.map_append, List.nodup_append'] at distinct
  exact distinct.2.2 (List.mem_map.mpr ⟨player, listed, one⟩) (List.mem_cons_self ..)

/-- The largest tracked id bounds the loaded ids, so the numbers run out for it when they do for one of them. -/
theorem maxId_add_le_iff {oldObjects : List ObjectConfig} (large : ∃ src ∈ oldObjects, 2 ≤ src.id)
    (count : Nat) (bound : Int) :
    oldObjects.foldl trackMaxId 0 + count ≤ bound ↔ ∀ src ∈ oldObjects, src.id + count ≤ bound := by
  obtain ⟨-, above, attained⟩ := trackMaxId_spec oldObjects 0
  obtain ⟨top, topMember, two⟩ := large
  have positive := above top topMember two
  constructor
  · intro room src member
    -- The ids zero and one are not tracked, but the largest one is above them.
    by_cases small : 2 ≤ src.id
    · have tracked := above src member small
      omega
    · omega
  · intro room
    rcases attained with same | ⟨src, member, -, -, same⟩
    · omega
    · have last := room src member
      omega

theorem merged_keepsIdentity {names : List Bytes} {oldObjects loaded : List ObjectConfig}
    (mergeable : Mergeable names oldObjects) (copies : Copies oldObjects loaded)
    (counted : newFiles names oldObjects = [] ∨ ∃ src ∈ oldObjects, 2 ≤ src.id) :
    KeepsIdentity names oldObjects (withFixed oldObjects loaded ++
      addedObjects (oldObjects.foldl trackMaxId 0) (newFiles names oldObjects)) where
  distinct := merged_distinct mergeable copies counted
  empty := by
    obtain ⟨object, listed, zero⟩ := withFixed_empty copies
    exact ⟨object, List.mem_append_left _ listed, zero⟩
  player := by
    obtain ⟨object, listed, player⟩ := withFixed_player copies
    exact ⟨object, List.mem_append_left _ listed, player⟩
  kept := by
    intro src member notZero notOne
    obtain ⟨object, listed, id, same, -⟩ := copies.exists_of_mem member
    obtain ⟨name, entity⟩ := same notZero notOne
    rw [withFixed_eq]
    exact ⟨object, List.mem_append_left _ (List.mem_append_left _ listed), id, name, entity⟩
  files := merged_files _ mergeable copies

/-- The merge keeps every identity exactly when no object is added for a file,
or a loaded object is numbered from two on and the numbers do not run out. -/
theorem mergeObjectPalette_keepsIdentity_iff (names : List Bytes) (oldObjects : List ObjectConfig)
    (mergeable : Mergeable names oldObjects) :
    (∃ palette, mergeObjectPalette (directoryListing names) oldObjects = .ok palette ∧
      KeepsIdentity names oldObjects palette) ↔ NumbersFreely names oldObjects := by
  obtain ⟨loaded, copies, merged⟩ := mergeObjectPalette_eq mergeable
  simp only at merged
  rw [merged]
  constructor
  · rintro ⟨palette, result, keeps⟩
    by_cases none : newFiles names oldObjects = []
    · exact .inl none
    · split at result
      case isFalse => cases result
      case isTrue room =>
        cases result
        have large := large_of_merged_distinct mergeable copies none keeps.distinct
        exact .inr ⟨large, (maxId_add_le_iff large _ _).mp (room.resolve_left none)⟩
  · intro free
    have room : newFiles names oldObjects = [] ∨
        oldObjects.foldl trackMaxId 0 + ((newFiles names oldObjects).length : Int) ≤ intMax :=
      free.imp_right fun ⟨large, bound⟩ => (maxId_add_le_iff large _ _).mpr bound
    exact ⟨_, if_pos room, merged_keepsIdentity mergeable copies (free.imp_right And.left)⟩

def bareObjects : List ObjectConfig := [emptyObject]

def wallFile : Bytes := text "wall.png"

theorem bareObjects_mergeable : Mergeable [wallFile] bareObjects where
  distinct := by decide
  nonneg := by decide
  files := by decide
  plain := by decide
  short := by decide
  corrected := by decide
  textures := by decide

theorem bareObjects_merge_iff :
    (∃ palette, mergeObjectPalette (directoryListing [wallFile]) bareObjects = .ok palette ∧
      KeepsIdentity [wallFile] bareObjects palette) ↔ NumbersFreely [wallFile] bareObjects :=
  mergeObjectPalette_keepsIdentity_iff [wallFile] bareObjects bareObjects_mergeable

/-- The tile takes the player's id. -/
theorem bareObjects_tile_is_player :
    Mergeable [wallFile] bareObjects ∧
      ∃ palette, mergeObjectPalette (directoryListing [wallFile]) bareObjects = .ok palette ∧
        palette.map ObjectConfig.id = [0, 1, 1] ∧ ¬ KeepsIdentity [wallFile] bareObjects palette := by
  refine ⟨bareObjects_mergeable, [emptyObject, playerObject, addedObject 1 wallFile], ?_, rfl, ?_⟩
  · decide +kernel
  · intro keeps
    exact absurd keeps.distinct (by decide)

end Trigger.Editor
