import Trigger.CJson.Access
import Trigger.CJson.Building
import Trigger.Editor.LevelFiles

/-! The tree of a level in memory, from the first item to its deletion. -/

set_option autoImplicit false

namespace Trigger.Editor
open Foundation Config CJson

/-! ## The calls of SaveLevelConfig -/

def objectTree (object : ObjectConfig) : Building := .object [
  .number (text "id") object.id,
  .string (text "name") object.name.val,
  .string (text "texture") object.texture.val,
  .string (text "entity") object.entity.val]

def levelTree (config : LevelConfig) (objects : List ObjectConfig) (rows cols : Int) (data : List (List Int)) : Building :=
  .object [
    .item (text "level_info") (.object [
      .string (text "name") config.name.val,
      .string (text "background") config.textureBackground.val,
      .string (text "next_level") config.nextLevel.val]),
    .item (text "objects") (.array (objects.map fun object => .element (objectTree object))),
    .item (text "map") (.object [
      .item (text "size") (.object [.number (text "rows") rows, .number (text "cols") cols]),
      .item (text "data") (.array (data.map fun row => .element (.array (row.map fun (id : Int) => .element (.number id)))))])]

/-- `SaveLevelConfig` up to the tree in memory. -/
def saveLevelTree (config : LevelConfig) : Building := fun arena => do
  let box := boundingBox config.layout
  let newData ← copyBox config.layout box
  let oldIds := oldIdsSorted newData
  let renumbered ← newData.mapM fun row => row.mapM (renumber oldIds)
  levelTree config (newObjects config.objects oldIds) box.newRows box.newCols renumbered arena

/-- A number of type `int` is not changed by its way through a `double`. -/
theorem saturated_intCast {n : Int} (least : CJson.intMin ≤ n) (most : n ≤ CJson.intMax) : saturated n = n := by
  unfold saturated
  split_ifs with above below
  · exact le_antisymm (by exact_mod_cast above) most
  · exact le_antisymm least (by exact_mod_cast below)
  · exact truncate_intCast n

theorem saturated_small {n : Int} (least : 0 ≤ n) (most : n ≤ 500) : saturated n = n :=
  saturated_intCast (Int.le_trans (by decide) least) (Int.le_trans most (by decide))

theorem fills_small (name : Bytes) {n : Int} (least : 0 ≤ n) (most : n ≤ 500) :
    Fills IsObject (adopt (some name) (.number n)) (.number name n) := by
  have fills := fills_number name n
  rwa [saturated_small least most] at fills

theorem builds_objectJson (object : ObjectConfig) (id : 0 ≤ object.id ∧ object.id ≤ 255) :
    Builds (objectJson object) (objectTree object) := by
  refine builds_members rfl ?_
  simp only [List.zip_cons_cons, List.zip_nil_right, List.forall_mem_cons]
  exact ⟨fills_small _ id.1 (by omega), fills_string _ _, fills_string _ _, fills_string _ _, by simp⟩

/-- The calls build the tree that is printed. -/
theorem builds_configJson {config : LevelConfig} (small : Small config) : Builds (configJson config)
    (levelTree config config.objects config.layout.rows config.layout.cols config.layout.data) := by
  obtain ⟨rows, cols, -, ids, cells⟩ := small
  simp only [editorMaxSize] at rows cols
  have data : Builds (.array (config.layout.data.map fun row => .array (row.map .number)))
      (.array (config.layout.data.map fun row => .element (.array (row.map fun (id : Int) => .element (.number id))))) := by
    refine builds_array _ fun row listed => builds_array _ fun id present => ?_
    obtain ⟨least, most⟩ := cells row listed id present
    have number := builds_number id
    rwa [saturated_small least (by omega)] at number
  have objects : Builds (.array (config.objects.map objectJson))
      (.array (config.objects.map fun object => .element (objectTree object))) :=
    builds_array _ fun object listed => builds_objectJson object (ids object listed)
  refine builds_members rfl ?_
  simp only [List.zip_cons_cons, List.zip_nil_right, List.forall_mem_cons]
  refine ⟨fills_item _ (builds_members rfl ?_), fills_item _ objects, fills_item _ (builds_members rfl ?_), by simp⟩
  · simp only [List.zip_cons_cons, List.zip_nil_right, List.forall_mem_cons]
    exact ⟨fills_string _ _, fills_string _ _, fills_string _ _, by simp⟩
  · simp only [List.zip_cons_cons, List.zip_nil_right, List.forall_mem_cons]
    refine ⟨fills_item _ (builds_members rfl ?_), fills_item _ data, by simp⟩
    simp only [List.zip_cons_cons, List.zip_nil_right, List.forall_mem_cons]
    exact ⟨fills_small _ (by omega) (by omega), fills_small _ (by omega) (by omega), by simp⟩

theorem saveLevelTree_eq {config : LevelConfig} (savable : Savable config.layout) (arena : Arena) :
    saveLevelTree config arena = levelTree (savedConfig config) (savedConfig config).objects (savedConfig config).layout.rows
      (savedConfig config).layout.cols (savedConfig config).layout.data arena := by
  have shape := boundingBox_shape savable
  have renumbered : (croppedLayout config.layout).data.mapM
      (fun row => row.mapM (renumber (oldIdsSorted (croppedLayout config.layout).data))) = _ := renumbered_eq savable
  rw [saveLevelTree, copyBox_eq savable, ok_bind]
  dsimp only
  rw [renumbered, ok_bind, shape.1, shape.2]
  rfl

/-- Whichever allocations fail, the calls of a save reach the printer without a fault and leave all other
trees as they were, and what `cJSON_Delete` of the root leaves live belongs to roots of their own. If none
fails, the tree is the one that is printed, and deleting it leaves nothing behind. -/
theorem saveLevelTree_accounted (config : LevelConfig) (rows : 1 ≤ config.layout.rows ∧ config.layout.rows ≤ editorMaxSize)
    (cols : 1 ≤ config.layout.cols ∧ config.layout.cols ≤ editorMaxSize)
    (cells : ∀ r c value, config.layout.get? r c = some value → 0 ≤ value ∧ value ≤ 255)
    (arena : Arena) (held : Held) (accounted : Accounted arena.heap held) :
    ∃ root after next last, saveLevelTree config arena = .ok (root, after) ∧ Accounted after.heap next ∧
      (∀ other, held other ≠ none → next other = held other) ∧ after.delete root = .ok last ∧
      Accounted last.heap (letGo root next) ∧
      (arena.Granted → letGo root next = held ∧
        ∃ json, saveLevelConfig config = .ok json ∧ Points after.heap root (some json)) := by
  have savable : Savable config.layout := ⟨rows.1, cols.1, cells⟩
  obtain ⟨root, after, next, built, made⟩ := builds_configJson (savable.small rows.2 cols.2) arena held accounted
  obtain ⟨last, deleted, gone, -⟩ := Arena.delete_accounted made.accounted fun address isRoot => (made.new address isRoot).2
  refine ⟨root, after, next, last, (saveLevelTree_eq savable arena).trans built, made.accounted, made.kept, deleted, gone,
    fun all => ?_⟩
  obtain ⟨-, address, rfl, rfl⟩ := made.granted all
  refine ⟨?_, _, saveLevelConfig_eq savable, ?_⟩
  · rw [letGo, Function.update_idem, update_none_of_absent (made.new address rfl).1]
  · obtain ⟨foot, holdings⟩ := made.accounted
    exact .node (holdings.tree (Function.update_self ..)).node

theorem saveLevelTree_oneTile : ∃ root after next last,
    saveLevelTree oneTileLevel ⟨Heap.empty, [true, false]⟩ = .ok (root, after) ∧ Accounted after.heap next ∧
      (∀ other, (none : Option Json) ≠ none → next other = none) ∧ after.delete root = .ok last ∧
      Accounted last.heap (letGo root next) ∧
      (Arena.Granted ⟨Heap.empty, [true, false]⟩ → (letGo root next = fun _ => none) ∧
        ∃ json, saveLevelConfig oneTileLevel = .ok json ∧ Points after.heap root (some json)) := by
  refine saveLevelTree_accounted oneTileLevel (by decide) (by decide) (fun r c value found => ?_) _ _ accounted_empty
  have all : ∀ cell ∈ oneTileLevel.layout.cells, 0 ≤ cell.2.2 ∧ cell.2.2 ≤ 255 := by decide
  exact all (r, c, value) (Grid.mem_cells.mpr found)

end Trigger.Editor
