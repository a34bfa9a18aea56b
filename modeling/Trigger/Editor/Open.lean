import Trigger.Editor.RoundTrip
import Trigger.Editor.Merging

/-! Opening a level file in the editor: the map padded to the size of the
editor, the palette merged with the directory, unknown ids cleared.
-/

set_option autoImplicit false

namespace Trigger.Editor
open Foundation Config

def editorMaxSize : Nat := 500

def expandMapToEditorSize (layout : MapLayout) (maxRows maxCols : Nat) : MapLayout :=
  if layout.rows = maxRows ∧ layout.cols = maxCols then layout
  else
    let copyRows := if layout.rows < maxRows then layout.rows else maxRows
    let copyCols := if layout.cols < maxCols then layout.cols else maxCols
    Grid.ofFn maxRows maxCols fun r c => if r < copyRows ∧ c < copyCols then cellAt layout r c else 0

/-- The loop of `main` that clears the ids outside the merged palette. -/
def resetForeign (layout : MapLayout) (countObjects : Nat) : MapLayout :=
  layout.map fun (id : Int) => if id ≥ countObjects then 0 else id

/-- The branch of `main` for a level file that was loaded. -/
def openLevel (listing : Option (List Bytes)) (config : LevelConfig) : Except Fault LevelConfig := do
  let expanded := expandMapToEditorSize config.layout editorMaxSize editorMaxSize
  let objects ← mergeObjectPalette listing config.objects
  return { config with objects, layout := resetForeign expanded objects.length }

theorem cellAt_of_get? {layout : MapLayout} {r c : Nat} {value : Int}
    (found : layout.get? r c = some value) : cellAt layout r c = value := by
  simp [cellAt, found]

theorem cellAt_of_outside {layout : MapLayout} {r c : Nat}
    (outside : ¬ (r < layout.rows ∧ c < layout.cols)) : cellAt layout r c = 0 := by
  simp [cellAt, (layout.get?_eq_none_iff r c).mpr outside]

theorem expandMapToEditorSize_shape (layout : MapLayout) (maxRows maxCols : Nat) :
    (expandMapToEditorSize layout maxRows maxCols).rows = maxRows ∧
      (expandMapToEditorSize layout maxRows maxCols).cols = maxCols := by
  unfold expandMapToEditorSize
  split
  · assumption
  · simp

theorem expandMapToEditorSize_get? (layout : MapLayout) {maxRows maxCols r c : Nat}
    (row : r < maxRows) (col : c < maxCols) :
    (expandMapToEditorSize layout maxRows maxCols).get? r c = some (cellAt layout r c) := by
  unfold expandMapToEditorSize
  split
  next same =>
    obtain ⟨value, found⟩ := (layout.exists_get?_iff r c).mpr (by omega)
    rw [found, cellAt_of_get? found]
  next =>
    rw [Grid.get?_ofFn, if_pos ⟨row, col⟩]
    by_cases inside : r < layout.rows ∧ c < layout.cols
    · rw [if_pos (by constructor <;> split <;> omega)]
    · rw [cellAt_of_outside inside, ite_self]

theorem mergePng_extends {merging merged : Merging} {fname : Bytes}
    (result : mergePng merging fname = .ok merged) :
    (resourcePath fname).length < 256 ∧ ∃ added, merged.temp = merging.temp ++ added := by
  have short_of_full (full : (truncated 512 room512 (resourcePath fname)).val.length < 256) :
      (resourcePath fname).length < 256 := by
    simp only [truncated, List.length_take] at full
    omega
  simp only [mergePng] at result
  split at result
  case isTrue present =>
    obtain ⟨object, _, same⟩ := List.any_eq_true.mp present
    cases result
    refine ⟨short_of_full ?_, [], (List.append_nil _).symm⟩
    rw [← of_decide_eq_true same]
    exact object.texture.property
  case isFalse =>
    split at result
    case isFalse => cases result
    obtain ⟨texture, copied, result⟩ := bind_ok_iff.mp result
    cases result
    refine ⟨short_of_full ?_, _, rfl⟩
    rw [strcpy_ok_iff.mp copied]
    exact texture.property

theorem mergePngs_extends {names : List Bytes} {merging merged : Merging}
    (result : names.foldlM mergePng merging = .ok merged) :
    (∀ fname ∈ names, (resourcePath fname).length < 256) ∧
      ∃ added, merged.temp = merging.temp ++ added := by
  induction names generalizing merging with
  | nil =>
    cases result
    exact ⟨by simp, [], (List.append_nil _).symm⟩
  | cons fname rest ih =>
    rw [List.foldlM_cons] at result
    obtain ⟨next, first, remaining⟩ := bind_ok_iff.mp result
    obtain ⟨short, added, extended⟩ := mergePng_extends first
    obtain ⟨restShort, later, whole⟩ := ih remaining
    exact ⟨List.forall_mem_cons.mpr ⟨short, restShort⟩, added ++ later, by
      rw [whole, extended, List.append_assoc]⟩

theorem mergePngs_succeed {names : List Bytes} (merging : Merging)
    (short : ∀ fname ∈ names, (resourcePath fname).length < 256)
    (room : missingCount merging.temp names = 0 ∨ merging.maxId + missingCount merging.temp names ≤ intMax) :
    ∃ merged, names.foldlM mergePng merging = .ok merged := by
  induction names generalizing merging with
  | nil => exact ⟨merging, rfl⟩
  | cons fname rest ih =>
    rw [List.forall_mem_cons] at short
    by_cases present : merging.temp.any fun object => object.texture.val = resourcePath fname
    · rw [missingCount_of_present rest present] at room
      obtain ⟨merged, remaining⟩ := ih merging short.2 room
      exact ⟨merged, by rw [List.foldlM_cons, mergePng_of_present short.1 present]; exact remaining⟩
    · rw [missingCount_of_missing (merging.maxId + 1) rest short.1 present] at room
      have enough := room.resolve_left (Nat.succ_ne_zero _)
      push_cast at enough
      have below : merging.maxId < intMax := by omega
      obtain ⟨merged, remaining⟩ := ih
        ⟨merging.temp ++ [addedObject (merging.maxId + 1) fname], merging.maxId + 1⟩ short.2
        (by simp only; omega)
      exact ⟨merged, by
        rw [List.foldlM_cons, mergePng_of_missing short.1 present, if_pos below]; exact remaining⟩

theorem mergePngs_room {names : List Bytes} {merging merged : Merging}
    (result : names.foldlM mergePng merging = .ok merged) :
    missingCount merging.temp names = 0 ∨ merging.maxId + missingCount merging.temp names ≤ intMax := by
  obtain ⟨short, -⟩ := mergePngs_extends result
  induction names generalizing merging with
  | nil => exact .inl rfl
  | cons fname rest ih =>
    rw [List.forall_mem_cons] at short
    rw [List.foldlM_cons] at result
    by_cases present : merging.temp.any fun object => object.texture.val = resourcePath fname
    · rw [mergePng_of_present short.1 present] at result
      rw [missingCount_of_present rest present]
      exact ih result short.2
    · rw [mergePng_of_missing short.1 present] at result
      rw [missingCount_of_missing (merging.maxId + 1) rest short.1 present]
      by_cases below : merging.maxId < intMax
      · rw [if_pos below] at result
        have left := ih result short.2
        push_cast
        dsimp only at left
        omega
      · rw [if_neg below] at result
        cases result

theorem mergePngs_numbered {names : List Bytes} {merging merged : Merging}
    (result : names.foldlM mergePng merging = .ok merged) :
    merged.temp.length = merging.temp.length + missingCount merging.temp names ∧
      ∀ id, (∃ object ∈ merged.temp, object.id = id) ↔ (∃ object ∈ merging.temp, object.id = id) ∨
        merging.maxId < id ∧ id ≤ merging.maxId + missingCount merging.temp names := by
  obtain ⟨short, -⟩ := mergePngs_extends result
  induction names generalizing merging with
  | nil =>
    cases result
    refine ⟨rfl, fun id => (or_iff_left ?_).symm⟩
    simp [missingCount, missingFiles]
  | cons fname rest ih =>
    rw [List.forall_mem_cons] at short
    rw [List.foldlM_cons] at result
    by_cases present : merging.temp.any fun object => object.texture.val = resourcePath fname
    · rw [mergePng_of_present short.1 present] at result
      rw [missingCount_of_present rest present]
      exact ih result short.2
    · rw [mergePng_of_missing short.1 present] at result
      rw [missingCount_of_missing (merging.maxId + 1) rest short.1 present]
      by_cases below : merging.maxId < intMax
      · rw [if_pos below] at result
        obtain ⟨length, ids⟩ := ih result short.2
        simp only [List.length_append, List.length_singleton] at length
        simp only [List.mem_append, List.mem_singleton, or_and_right, exists_or, exists_eq_left,
          addedObject_id] at ids ⊢
        refine ⟨by omega, fun id => ?_⟩
        rw [ids, or_assoc]
        push_cast
        apply or_congr_right
        omega
      · rw [if_neg below] at result
        cases result

theorem mergeObjectPalette_extends {listing : Option (List Bytes)}
    {oldObjects palette : List ObjectConfig} (result : mergeObjectPalette listing oldObjects = .ok palette) :
    (∀ fname ∈ pngNames listing, (resourcePath fname).length < 256) ∧
      ∃ loaded added, oldObjects.mapM copyLoaded = .ok loaded ∧ palette = loaded ++ added := by
  obtain ⟨loaded, traversed, result⟩ := bind_ok_iff.mp result
  obtain ⟨merged, files, result⟩ := bind_ok_iff.mp result
  obtain ⟨short, added, extended⟩ := mergePngs_extends files
  cases result
  refine ⟨short, loaded, fixedObjects oldObjects ++ added, traversed, ?_⟩
  rw [extended, withFixed_eq, List.append_assoc]

end Trigger.Editor
