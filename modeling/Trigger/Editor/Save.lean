import Trigger.Config.Level
import Trigger.Foundation.Ranking
import Mathlib.Logic.Function.Basic

/-! `SaveLevelConfig`: the map cropped to its non-empty part, its ids renumbered
by rank, the objects of the used ids, and the tree that is printed.
-/

set_option autoImplicit false

namespace Trigger.Editor
open Foundation Config

structure Extent where
  minR : Int
  maxR : Int
  minC : Int
  maxC : Int
  found : Bool
  deriving DecidableEq, Repr

def Extent.visit (extent : Extent) (cell : Nat × Nat × Int) : Extent :=
  match cell with
  | (r, c, value) =>
    if value ≠ 0 then
      { minR := if r < extent.minR then r else extent.minR
        maxR := if r > extent.maxR then r else extent.maxR
        minC := if c < extent.minC then c else extent.minC
        maxC := if c > extent.maxC then c else extent.maxC
        found := true }
    else extent

def boundingBox (layout : MapLayout) : Extent :=
  let scanned := layout.cells.foldl Extent.visit ⟨layout.rows, -1, layout.cols, -1, false⟩
  -- An empty map is saved as its first cell.
  if scanned.found then scanned else ⟨0, 0, 0, 0, false⟩

def Extent.newRows (extent : Extent) : Int := extent.maxR - extent.minR + 1
def Extent.newCols (extent : Extent) : Int := extent.maxC - extent.minC + 1

def readCell (layout : MapLayout) (r c : Int) : Except Fault Int :=
  match layout.at? r c with
  | some value => .ok value
  | none => .error .outOfBounds

def copyBox (layout : MapLayout) (extent : Extent) : Except Fault (List (List Int)) :=
  (List.range extent.newRows.toNat).mapM fun (i : Nat) =>
    (List.range extent.newCols.toNat).mapM fun (j : Nat) =>
      readCell layout (extent.minR + i) (extent.minC + j)

def maxObjects : Nat := 256

def usedIds (newData : List (List Int)) : Int → Bool :=
  newData.flatten.foldl (fun (used : Int → Bool) (id : Int) =>
    if 0 ≤ id ∧ id < maxObjects then Function.update used id true else used) fun _ => false

def oldIdsSorted (newData : List (List Int)) : List Int :=
  ((List.range maxObjects).map fun (id : Nat) => (id : Int)).filter (usedIds newData)

def idMap (oldIds : List Int) : Int → Int :=
  oldIds.zipIdx.foldl (fun map entry => Function.update map entry.1 entry.2) fun _ => -1

/-- `id_map[id]` of a table with `MAX_OBJECTS` entries. -/
def renumber (oldIds : List Int) (id : Int) : Except Fault Int :=
  if 0 ≤ id ∧ id < maxObjects then .ok (idMap oldIds id) else .error .outOfBounds

def stripParent (texture : CharArray 256) : CharArray 256 :=
  if text "../" <+: texture.val then ⟨texture.val.drop 3, by
    have := texture.property
    simp only [List.length_drop]
    omega⟩
  else texture

/-- One `../` at the start is removed. -/
theorem stripParent_eq_iff {texture stripped : CharArray 256} : stripParent texture = stripped ↔
    texture.val = text "../" ++ stripped.val ∨ ¬ text "../" <+: texture.val ∧ texture = stripped := by
  unfold stripParent
  split_ifs with parent
  · obtain ⟨rest, same⟩ := parent
    have removed : (text "../" ++ rest).drop 3 = rest := rfl
    simp [Subtype.ext_iff, ← same, removed]
  · have apart : texture.val ≠ text "../" ++ stripped.val := fun same => parent (same ▸ List.prefix_append ..)
    simp [parent, apart]

def unknownName : CharArray 256 := ⟨text "unknown", by decide⟩

/-- The object written for the id at position `i` of the sorted used ids. -/
def newObject (objects : List ObjectConfig) (oldId : Int) (i : Nat) : ObjectConfig :=
  match objectById objects oldId with
  | some src => { id := i, name := src.name, texture := stripParent src.texture, entity := src.entity }
  | none => { id := i, name := unknownName, texture := emptyString, entity := emptyString }

def newObjects (objects : List ObjectConfig) (oldIds : List Int) : List ObjectConfig :=
  oldIds.zipIdx.map fun entry => newObject objects entry.1 entry.2

def objectJson (object : ObjectConfig) : Json :=
  .object [(text "id", .number object.id), (text "name", .string object.name.val),
    (text "texture", .string object.texture.val), (text "entity", .string object.entity.val)]

def levelJson (config : LevelConfig) (objects : List ObjectConfig) (rows cols : Int)
    (data : List (List Int)) : Json :=
  .object [
    (text "level_info", .object [(text "name", .string config.name.val),
      (text "background", .string config.textureBackground.val),
      (text "next_level", .string config.nextLevel.val)]),
    (text "objects", .array (objects.map objectJson)),
    (text "map", .object [
      (text "size", .object [(text "rows", .number rows), (text "cols", .number cols)]),
      (text "data", .array (data.map fun row => .array (row.map .number)))])]

def saveLevelConfig (config : LevelConfig) : Except Fault Json := do
  -- Cropped first, so an id counts as used only when it lies inside the box.
  let box := boundingBox config.layout
  let newData ← copyBox config.layout box
  let oldIds := oldIdsSorted newData
  -- Every id becomes its position among the used ids, in ascending order.
  let renumbered ← newData.mapM fun row => row.mapM (renumber oldIds)
  return levelJson config (newObjects config.objects oldIds) box.newRows box.newCols renumbered

end Trigger.Editor
