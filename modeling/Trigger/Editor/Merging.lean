import Trigger.Editor.Palette
import Mathlib.Data.Finset.Card

/-! Identity of the merged palette: which objects `MergeObjectPalette` keeps,
which it adds for files, and when their ids stay pairwise distinct.
-/

set_option autoImplicit false

namespace Trigger.Editor
open Foundation Config

def directoryListing (names : List Bytes) : Option (List Bytes) := some (names.map resourcePath)

theorem fileName_resourcePath {fname : Bytes} (plain : slash ∉ fname) :
    fileName (resourcePath fname) = fname := by
  have suffix : strrchr slash (resourcePath fname) = some (slash :: fname) := by
    rw [resourcePath, strrchr_append_of_mem (List.mem_cons_self ..), strrchr_cons_of_not_mem plain]
  simp [fileName, suffix]

/-- The listed files that get an object of their own. -/
def tileFiles (names : List Bytes) : List Bytes :=
  names.filter fun fname => isPng (resourcePath fname) && decide (fname ≠ heroFile)

theorem pngNames_directoryListing {names : List Bytes} (plain : ∀ fname ∈ names, slash ∉ fname) :
    pngNames (directoryListing names) = tileFiles names := by
  induction names with
  | nil => rfl
  | cons fname rest ih =>
    have same := fileName_resourcePath (plain fname (List.mem_cons_self ..))
    have tail := ih fun other member => plain other (List.mem_cons_of_mem _ member)
    simp only [pngNames, directoryListing, tileFiles, List.map_cons] at tail ⊢
    by_cases png : isPng (resourcePath fname)
    · by_cases hero : fname = heroFile
      · subst hero
        simpa [png, same] using tail
      · simpa [png, hero, same] using tail
    · simpa [png] using tail

theorem resourcePath_injective : Function.Injective resourcePath := by
  intro first second same
  exact (List.cons.inj (List.append_cancel_left same)).2

theorem resourcePath_ne_nil (fname : Bytes) : resourcePath fname ≠ [] := by
  simp [resourcePath, mapDir]

theorem resourcePath_eq_player_iff {fname : Bytes} :
    resourcePath fname = playerObject.texture.val ↔ fname = heroFile := by
  rw [show playerObject.texture.val = resourcePath heroFile from by decide]
  exact resourcePath_injective.eq_iff

def correctedTexture (object : ObjectConfig) : Bytes :=
  if object.id = 0 then []
  else if object.id = 1 then playerObject.texture.val
  else if text "resources/" <+: object.texture.val then text "../" ++ object.texture.val
  else object.texture.val

theorem copyLoaded_ok {src : ObjectConfig} (fits : (correctedTexture src).length < 256) :
    ∃ object, copyLoaded src = .ok object ∧ object.id = src.id ∧
      object.texture.val = correctedTexture src ∧
      (src.id ≠ 0 → src.id ≠ 1 → object.name = src.name ∧ object.entity = src.entity) ∧
      (src.id = 1 → object.entity.val = text "player") := by
  unfold copyLoaded correctedTexture at *
  by_cases zero : src.id = 0
  · exact ⟨emptyObject, by simp [zero], by simp [zero, emptyObject],
      by simp [zero, emptyObject, emptyString, CharArray.empty], by simp [zero], by simp [zero]⟩
  by_cases one : src.id = 1
  · exact ⟨playerObject, by simp [one], by simp [one, playerObject], by simp [one],
      by simp [one], fun _ => rfl⟩
  by_cases bare : text "resources/" <+: src.texture.val
  · simp only [zero, one, bare, if_false, if_true] at fits ⊢
    have short : (text "../" ++ src.texture.val).length < 512 := by omega
    refine ⟨{ src with texture := ⟨_, fits⟩ }, ?_, rfl, rfl, fun _ _ => ⟨rfl, rfl⟩, fun same => same.elim⟩
    rw [correctTexture, if_pos bare, truncated_of_fits short, strcpy_of_fits fits]
    rfl
  · exact ⟨src, by simp [zero, one, correctTexture, bare, Except.map], rfl, by simp [zero, one, bare],
      fun _ _ => ⟨rfl, rfl⟩, fun same => absurd same one⟩

theorem copyLoaded_overflows {src : ObjectConfig} (long : ¬ (correctedTexture src).length < 256) :
    copyLoaded src = .error .outOfBounds := by
  have stored := src.texture.property
  unfold correctedTexture at long
  unfold copyLoaded
  split at long
  · exact absurd (by decide) long
  split at long
  · exact absurd playerObject.texture.property long
  split at long
  next zero one bare =>
    have whole : (truncated 512 room512 (text "../" ++ src.texture.val)).val = text "../" ++ src.texture.val := by
      have parent : (text "../").length = 3 := by decide
      exact truncated_of_fits (by rw [List.length_append]; omega)
    rw [if_neg zero, if_neg one, correctTexture, if_pos bare, whole, strcpy, dif_neg long]
    rfl
  next => exact absurd stored long

theorem correctedTexture_fits {src object : ObjectConfig} (copied : copyLoaded src = .ok object) :
    (correctedTexture src).length < 256 := by
  by_contra long
  rw [copyLoaded_overflows long] at copied
  cases copied

theorem copyLoaded_spec {src object : ObjectConfig} (copied : copyLoaded src = .ok object) :
    object.id = src.id ∧ object.texture.val = correctedTexture src := by
  obtain ⟨_, same, id, texture, -⟩ := copyLoaded_ok (correctedTexture_fits copied)
  cases copied.symm.trans same
  exact ⟨id, texture⟩

theorem trackMaxId_spec (objects : List ObjectConfig) (start : Int) :
    start ≤ objects.foldl trackMaxId start ∧
      (∀ object ∈ objects, 2 ≤ object.id → object.id ≤ objects.foldl trackMaxId start) ∧
      (objects.foldl trackMaxId start = start ∨
        ∃ object ∈ objects, object.id ≠ 0 ∧ object.id ≠ 1 ∧
          object.id = objects.foldl trackMaxId start) := by
  induction objects generalizing start with
  | nil => simp
  | cons head rest ih =>
    obtain ⟨above, all, attained⟩ := ih (trackMaxId start head)
    have step : start ≤ trackMaxId start head ∧ (2 ≤ head.id → head.id ≤ trackMaxId start head) ∧
        (trackMaxId start head = start ∨
          head.id ≠ 0 ∧ head.id ≠ 1 ∧ head.id = trackMaxId start head) := by
      unfold trackMaxId
      split
      · omega
      · split <;> omega
    simp only [List.foldl_cons, List.mem_cons, forall_eq_or_imp, exists_eq_or_imp]
    refine ⟨by omega, ⟨fun large => by have := step.2.1 large; omega, all⟩, ?_⟩
    rcases attained with same | found
    · rcases step.2.2 with kept | ⟨notZero, notOne, taken⟩
      · exact .inl (same.trans kept)
      · exact .inr (.inl ⟨notZero, notOne, taken.trans same.symm⟩)
    · exact .inr (.inr found)

def fixedObjects (oldObjects : List ObjectConfig) : List ObjectConfig :=
  (if oldObjects.any fun src => src.id = 0 then [] else [emptyObject]) ++
    (if oldObjects.any fun src => src.id = 1 then [] else [playerObject])

theorem withFixed_eq (oldObjects temp : List ObjectConfig) :
    withFixed oldObjects temp = temp ++ fixedObjects oldObjects :=
  List.append_assoc ..

def addedObject (id : Int) (fname : Bytes) : ObjectConfig :=
  ⟨id, pngName fname, truncated 256 room256 (resourcePath fname), emptyString⟩

@[simp] theorem addedObject_id (id : Int) (fname : Bytes) : (addedObject id fname).id = id := rfl

theorem addedObject_texture (id : Int) {fname : Bytes} (short : (resourcePath fname).length < 256) :
    (addedObject id fname).texture.val = resourcePath fname := by
  rw [addedObject, truncated_of_fits short]

theorem buildObjectPalette_eq (listing : Option (List Bytes)) :
    buildObjectPalette listing = [emptyObject, playerObject, doorObject, endObject] ++
      ((pngNames listing).zipIdx 4).map fun entry => addedObject (entry.2 : Nat) entry.1 := by
  have appended (names : List Bytes) (objects : List ObjectConfig) : names.foldl appendPng objects =
      objects ++ (names.zipIdx objects.length).map fun entry => addedObject (entry.2 : Nat) entry.1 := by
    induction names generalizing objects with
    | nil => exact (List.append_nil _).symm
    | cons fname rest ih =>
      rw [List.foldl_cons, ih, appendPng, List.zipIdx_cons, List.map_cons, List.append_assoc, List.length_append]
      rfl
  exact appended (pngNames listing) _

def addedObjects (maxId : Int) : List Bytes → List ObjectConfig
  | [] => []
  | fname :: rest => addedObject (maxId + 1) fname :: addedObjects (maxId + 1) rest

def missingFiles (temp : List ObjectConfig) (names : List Bytes) : List Bytes :=
  names.filter fun fname => !temp.any fun object => object.texture.val = resourcePath fname

theorem addedObjects_id {maxId : Int} {names : List Bytes} :
    ∀ object ∈ addedObjects maxId names, maxId < object.id := by
  induction names generalizing maxId with
  | nil => simp [addedObjects]
  | cons fname rest ih =>
    simp only [addedObjects, List.mem_cons, forall_eq_or_imp, addedObject]
    exact ⟨by omega, fun object member => by have := ih object member; omega⟩

theorem addedObjects_distinct (maxId : Int) (names : List Bytes) :
    ((addedObjects maxId names).map ObjectConfig.id).Nodup := by
  induction names generalizing maxId with
  | nil => simp [addedObjects]
  | cons fname rest ih =>
    refine List.nodup_cons.mpr ⟨fun member => ?_, ih (maxId + 1)⟩
    obtain ⟨object, listed, same⟩ := List.mem_map.mp member
    have := addedObjects_id object listed
    simp only [addedObject] at same
    omega

theorem addedObjects_texture (maxId : Int) {names : List Bytes}
    (short : ∀ fname ∈ names, (resourcePath fname).length < 256) :
    (addedObjects maxId names).map (fun object => object.texture.val) = names.map resourcePath := by
  induction names generalizing maxId with
  | nil => rfl
  | cons fname rest ih =>
    rw [List.forall_mem_cons] at short
    simp only [addedObjects, List.map_cons, addedObject_texture _ short.1, ih _ short.2]

theorem mergePng_of_present {merging : Merging} {fname : Bytes}
    (short : (resourcePath fname).length < 256)
    (present : merging.temp.any fun object => object.texture.val = resourcePath fname) :
    mergePng merging fname = .ok merging := by
  rw [mergePng, truncated_of_fits (by omega), if_pos present]

theorem mergePng_of_missing {merging : Merging} {fname : Bytes}
    (short : (resourcePath fname).length < 256)
    (missing : ¬ merging.temp.any fun object => object.texture.val = resourcePath fname) :
    mergePng merging fname =
      if merging.maxId < intMax then
        .ok ⟨merging.temp ++ [addedObject (merging.maxId + 1) fname], merging.maxId + 1⟩
      else .error .signedOverflow := by
  have same : (⟨resourcePath fname, short⟩ : CharArray 256) =
      truncated 256 room256 (resourcePath fname) := Subtype.ext (truncated_of_fits short).symm
  rw [mergePng, truncated_of_fits (by omega), if_neg missing, strcpy_of_fits short, same]
  rfl

theorem missingFiles_added {merging : Merging} {fname : Bytes} {rest : List Bytes} (fresh : fname ∉ rest)
    (short : (resourcePath fname).length < 256) :
    missingFiles (merging.temp ++ [addedObject (merging.maxId + 1) fname]) rest = missingFiles merging.temp rest := by
  refine List.filter_congr fun other member => ?_
  have apart : resourcePath fname ≠ resourcePath other := fun same =>
    fresh (resourcePath_injective same ▸ member)
  simp [addedObject_texture _ short, apart]

theorem mem_missingFiles_iff {temp : List ObjectConfig} {names : List Bytes} {fname : Bytes} :
    fname ∈ missingFiles temp names ↔ fname ∈ names ∧ ∀ object ∈ temp, object.texture.val ≠ resourcePath fname := by
  simp [missingFiles]

/-- The files that get an object, each once however often it is listed. -/
def missingCount (temp : List ObjectConfig) (names : List Bytes) : Nat := (missingFiles temp names).toFinset.card

theorem missingCount_le (temp : List ObjectConfig) (names : List Bytes) : missingCount temp names ≤ names.length :=
  (List.toFinset_card_le _).trans (List.length_filter_le _ _)

theorem missingCount_of_present {temp : List ObjectConfig} {fname : Bytes} (rest : List Bytes)
    (present : temp.any fun object => object.texture.val = resourcePath fname) :
    missingCount temp (fname :: rest) = missingCount temp rest := by
  simp [missingCount, missingFiles, present]

theorem missingCount_of_missing {temp : List ObjectConfig} {fname : Bytes} (id : Int) (rest : List Bytes)
    (short : (resourcePath fname).length < 256)
    (missing : ¬ temp.any fun object => object.texture.val = resourcePath fname) :
    missingCount temp (fname :: rest) = missingCount (temp ++ [addedObject id fname]) rest + 1 := by
  have later : (missingFiles (temp ++ [addedObject id fname]) rest).toFinset =
      (missingFiles temp rest).toFinset.erase fname := by
    ext other
    rw [Finset.mem_erase, List.mem_toFinset, List.mem_toFinset, mem_missingFiles_iff, mem_missingFiles_iff,
      List.forall_mem_append, List.forall_mem_singleton, addedObject_texture id short, resourcePath_injective.ne_iff]
    constructor
    · rintro ⟨listed, absent, apart⟩
      exact ⟨apart.symm, listed, absent⟩
    · rintro ⟨apart, listed, absent⟩
      exact ⟨listed, absent, apart.symm⟩
  have first : missingFiles temp (fname :: rest) = fname :: missingFiles temp rest := by
    simp [missingFiles, missing]
  rw [missingCount, missingCount, first, List.toFinset_cons, later, ← Finset.erase_insert_eq_erase]
  exact (Finset.card_erase_add_one (Finset.mem_insert_self ..)).symm

theorem numbers_left_iff {maxId : Int} (room : maxId < intMax) (rest : List Bytes) :
    (rest = [] ∨ maxId + 1 + (rest.length : Int) ≤ intMax) ↔ maxId + ((rest.length + 1 : Nat) : Int) ≤ intMax := by
  cases rest with
  | nil =>
    simp only [List.length_nil, true_or, true_iff]
    omega
  | cons fname rest =>
    simp only [List.cons_ne_nil, false_or, List.length_cons]
    omega

/-- The loop adds one object for each missing file, numbered from the maximum,
unless the numbers run out. -/
theorem mergePngs_eq {names : List Bytes} (distinct : names.Nodup)
    (short : ∀ fname ∈ names, (resourcePath fname).length < 256) (merging : Merging) :
    names.foldlM mergePng merging =
      if missingFiles merging.temp names = [] ∨
          merging.maxId + (missingFiles merging.temp names).length ≤ intMax then
        .ok ⟨merging.temp ++ addedObjects merging.maxId (missingFiles merging.temp names),
          merging.maxId + (missingFiles merging.temp names).length⟩
      else .error .signedOverflow := by
  induction names generalizing merging with
  | nil => simp [missingFiles, addedObjects, pure, Except.pure]
  | cons fname rest ih =>
    rw [List.nodup_cons] at distinct
    rw [List.forall_mem_cons] at short
    rw [List.foldlM_cons]
    by_cases present : merging.temp.any fun object => object.texture.val = resourcePath fname
    · have skip : missingFiles merging.temp (fname :: rest) = missingFiles merging.temp rest := by
        simp [missingFiles, present]
      rw [mergePng_of_present short.1 present, skip]
      exact ih distinct.2 short.2 merging
    · have take : missingFiles merging.temp (fname :: rest) =
          fname :: missingFiles merging.temp rest := by
        simp [missingFiles, present]
      rw [mergePng_of_missing short.1 present, take, List.length_cons]
      by_cases room : merging.maxId < intMax
      · rw [if_pos room]
        refine (ih distinct.2 short.2 _).trans ?_
        simp only [missingFiles_added distinct.1 short.1, numbers_left_iff room, addedObjects, List.append_assoc,
          List.singleton_append, List.cons_ne_nil, false_or]
        refine if_congr Iff.rfl ?_ rfl
        push_cast
        congr 2
        omega
      · -- The first missing file already has no number left.
        rw [if_neg room, if_neg]
        · rfl
        · simp only [List.cons_ne_nil, false_or]
          push_cast
          omega

end Trigger.Editor
