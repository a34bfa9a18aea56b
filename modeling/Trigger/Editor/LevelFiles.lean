import Trigger.CJson.Reread
import Trigger.Editor.Open
import Trigger.Editor.RoundTrip

/-! Level files byte by byte: the editor prints the saved tree, and the loader parses the
bytes of the file.

A level loads back from its file as it was saved, whatever bytes its strings have, as long
as they are strings of C.
-/

set_option autoImplicit false

namespace Trigger.Editor
open Foundation Config CJson

/-- The string at the start of a block of memory. -/
def stringAt : Cells UInt8 → Except Fault Bytes
  | [] => .error .outOfBounds
  | none :: _ => .error .indeterminate
  | some byte :: rest => if byte = 0 then .ok [] else (stringAt rest).map (byte :: ·)

/-- What `fputs` writes. -/
def fputs : Option (Cells UInt8) → Except Fault Bytes
  | none => .error .nullPointer
  | some memory => stringAt memory

/-- `SaveLevelConfig`, with the file it leaves: none if it cannot be opened for writing. -/
def saveLevelFile (config : LevelConfig) (writable : Bool) (hooks : Hooks) : Except Fault (Option Bytes × Hooks) := do
  let root ← saveLevelConfig config
  let (jsonStr, hooks) ← CJson.print root true hooks
  let file ← if writable then (fputs jsonStr).map some else .ok none
  -- `free(jsonStr)` of the null pointer does nothing.
  return (file, if jsonStr.isSome then hooks.deallocate else hooks)

/-- `load_level_config` of the bytes of a file, which end at the first zero byte. -/
def loadLevelBytes : Option Bytes → Except Fault (Option LoadedConfig)
  | none => .ok none
  | some bytes => do loadLevelFile (← parse (cString bytes))

structure CStrings (config : LevelConfig) : Prop where
  name : 0 ∉ config.name.val
  nextLevel : 0 ∉ config.nextLevel.val
  background : 0 ∉ config.textureBackground.val
  objects : ∀ object ∈ config.objects, 0 ∉ object.name.val ∧ 0 ∉ object.texture.val ∧ 0 ∉ object.entity.val

/-- A map of the size of the editor, whose objects and cells are within its tables. -/
structure Small (config : LevelConfig) : Prop where
  rows : config.layout.rows ≤ editorMaxSize
  cols : config.layout.cols ≤ editorMaxSize
  count : config.objects.length ≤ maxObjects
  ids : ∀ object ∈ config.objects, 0 ≤ object.id ∧ object.id ≤ 255
  cells : ∀ row ∈ config.layout.data, ∀ id ∈ row, 0 ≤ id ∧ id ≤ 255

def Members (ofName : Bytes → Prop) (ofValue : Json → Prop) (members : List (Bytes × Json)) : Prop :=
  ∀ member ∈ members, ofName member.1 ∧ ofValue member.2

section
variable {ofName : Bytes → Prop} {ofValue : Json → Prop}

theorem Members.nil : Members ofName ofValue [] := fun _ no => (by cases no)

theorem Members.cons {name : Bytes} {value : Json} {rest : List (Bytes × Json)} (first : ofName name) (holds : ofValue value)
    (others : Members ofName ofValue rest) : Members ofName ofValue ((name, value) :: rest) :=
  List.forall_mem_cons.mpr ⟨⟨first, holds⟩, others⟩

end

section
variable {config : LevelConfig} {levels : Nat}

theorem number_tree {n : Int} (least : 0 ≤ n) (most : n ≤ 500) : CTree levels (.number n) :=
  .number (Int.le_trans (by decide) least) (Int.le_trans most (by decide))

theorem object_tree {members : List (Bytes × Json)} (all : Members (0 ∉ ·) (CTree levels) members) :
    CTree (levels + 1) (.object members) :=
  .object (fun member within => (all member within).1) fun member within => (all member within).2

theorem objectJson_tree {object : ObjectConfig} (strings : 0 ∉ object.name.val ∧ 0 ∉ object.texture.val ∧ 0 ∉ object.entity.val)
    (id : 0 ≤ object.id ∧ object.id ≤ 255) : CTree (levels + 1) (objectJson object) :=
  object_tree (.cons (by decide) (number_tree id.1 (by omega)) (.cons (by decide) (.string strings.1)
    (.cons (by decide) (.string strings.2.1) (.cons (by decide) (.string strings.2.2) .nil))))

theorem configJson_tree (strings : CStrings config) (small : Small config) : CTree (levels + 4) (configJson config) := by
  obtain ⟨rows, cols, -, ids, cells⟩ := small
  simp only [editorMaxSize] at rows cols
  have data : CTree (levels + 2) (.array (config.layout.data.map fun row => .array (row.map .number))) := by
    refine .array fun item within => ?_
    obtain ⟨row, listed, rfl⟩ := List.mem_map.mp within
    refine .array fun cell inside => ?_
    obtain ⟨id, present, rfl⟩ := List.mem_map.mp inside
    have range := cells row listed id present
    exact number_tree range.1 (by omega)
  have objects : CTree (levels + 3) (.array (config.objects.map objectJson)) := by
    refine .array fun item within => ?_
    obtain ⟨object, listed, rfl⟩ := List.mem_map.mp within
    exact objectJson_tree (strings.objects object listed) (ids object listed)
  have size : CTree (levels + 2) (.object [(text "rows", .number config.layout.rows), (text "cols", .number config.layout.cols)]) :=
    object_tree (.cons (by decide) (number_tree (by omega) (by omega))
      (.cons (by decide) (number_tree (by omega) (by omega)) .nil))
  have info : CTree (levels + 3) (.object [(text "name", .string config.name.val),
      (text "background", .string config.textureBackground.val), (text "next_level", .string config.nextLevel.val)]) :=
    object_tree (.cons (by decide) (.string strings.name) (.cons (by decide) (.string strings.background)
      (.cons (by decide) (.string strings.nextLevel) .nil)))
  exact object_tree (.cons (by decide) info (.cons (by decide) objects
    (.cons (by decide) (object_tree (.cons (by decide) size (.cons (by decide) data .nil))) .nil)))

end

section
variable {config : LevelConfig} {depth : Nat}

theorem length_object (longest most : Nat) {members : List (Bytes × Json)}
    (all : Members (fun name => name.length ≤ longest) (fun value => (render true (depth + 1) value).length ≤ most) members) :
    (render true depth (.object members)).length ≤ members.length * (depth + 1 + 6 * longest + most + 6) + depth + 3 :=
  length_object_le (fun member within => (all member within).1) fun member within => (all member within).2

theorem length_array_map (most : Nat) {A : Type} {items : List A} {toJson : A → Json} {count : Nat} (few : items.length ≤ count)
    (all : ∀ item ∈ items, (render true (depth + 1) (toJson item)).length ≤ most) :
    (render true depth (.array (items.map toJson))).length ≤ count * (most + 2) + 2 := by
  have each : ∀ item ∈ items.map toJson, (render true (depth + 1) item).length ≤ most := by
    intro item within
    obtain ⟨source, listed, rfl⟩ := List.mem_map.mp within
    exact all source listed
  have bound := length_array_le each
  rw [List.length_map] at bound
  exact bound.trans (Nat.add_le_add_right (Nat.mul_le_mul_right _ few) 2)

theorem length_string (string : CharArray 256) : (render true depth (.string string.val)).length ≤ 1532 := by
  have short := string.property
  have long := length_renderString_le string.val
  rw [render]
  omega

theorem length_number {n : Int} (least : 0 ≤ n) (most : n ≤ 500) : (render true depth (.number n)).length ≤ 11 := by
  rw [render]
  exact numeralText_length (Int.le_trans (by decide) least) (Int.le_trans most (by decide))

theorem length_objectJson {object : ObjectConfig} (id : 0 ≤ object.id ∧ object.id ≤ 255) :
    (render true depth (objectJson object)).length ≤ 5 * depth + 6327 := by
  have number : (render true (depth + 1) (.number object.id)).length ≤ 1532 :=
    (length_number id.1 (by omega)).trans (by decide)
  refine le_trans (length_object 7 1532 (.cons (by decide) number (.cons (by decide) (length_string object.name)
    (.cons (by decide) (length_string object.texture) (.cons (by decide) (length_string object.entity) .nil))))) ?_
  simp only [List.length_cons, List.length_nil]
  omega

theorem length_configJson (small : Small config) : (render true 0 (configJson config)).length ≤ 20000000 := by
  obtain ⟨rows, cols, count, ids, cells⟩ := small
  simp only [editorMaxSize] at rows cols
  have data : (render true 2 (.array (config.layout.data.map fun row => .array (row.map .number)))).length ≤ 500 * 6504 + 2 := by
    refine length_array_map 6502 rows fun row listed => ?_
    refine length_array_map 11 ((config.layout.rectangular row listed).le.trans cols) fun id present => ?_
    have range := cells row listed id present
    exact length_number range.1 (by omega)
  have objects : (render true 1 (.array (config.objects.map objectJson))).length ≤ 256 * (6337 + 2) + 2 :=
    length_array_map 6337 count fun object listed => length_objectJson (ids object listed)
  have size : (render true 2 (.object [(text "rows", .number config.layout.rows), (text "cols", .number config.layout.cols)])).length ≤
      2 * (2 + 1 + 6 * 4 + 11 + 6) + 2 + 3 :=
    length_object 4 11 (.cons (by decide) (length_number (by omega) (by omega))
      (.cons (by decide) (length_number (by omega) (by omega)) .nil))
  have info : (render true 1 (.object [(text "name", .string config.name.val),
      (text "background", .string config.textureBackground.val), (text "next_level", .string config.nextLevel.val)])).length ≤
      3 * (1 + 1 + 6 * 10 + 1532 + 6) + 1 + 3 :=
    length_object 10 1532 (.cons (by decide) (length_string _) (.cons (by decide) (length_string _)
      (.cons (by decide) (length_string _) .nil)))
  have map : (render true 1 (.object [(text "size", _), (text "data", _)])).length ≤ 2 * (1 + 1 + 6 * 4 + 3252002 + 6) + 1 + 3 :=
    length_object 4 3252002 (.cons (by decide) (size.trans (by decide)) (.cons (by decide) data .nil))
  refine le_trans (length_object 10 6504080 (.cons (by decide) (info.trans (by decide)) (.cons (by decide) (objects.trans (by decide))
    (.cons (by decide) (map.trans (by decide)) .nil)))) ?_
  simp only [List.length_cons, List.length_nil]
  omega

end

section
variable {config : LevelConfig}

theorem stripParent_noNul {texture : CharArray 256} (noNul : 0 ∉ texture.val) : 0 ∉ (stripParent texture).val := by
  unfold stripParent
  split_ifs
  · exact fun member => noNul (List.mem_of_mem_drop member)
  · exact noNul

theorem newObject_noNul {objects : List ObjectConfig}
    (strings : ∀ object ∈ objects, 0 ∉ object.name.val ∧ 0 ∉ object.texture.val ∧ 0 ∉ object.entity.val) (oldId : Int) (i : Nat) :
    0 ∉ (newObject objects oldId i).name.val ∧ 0 ∉ (newObject objects oldId i).texture.val ∧
      0 ∉ (newObject objects oldId i).entity.val := by
  unfold newObject
  cases found : objectById objects oldId with
  | none =>
    have unknown : 0 ∉ text "unknown" := by decide
    exact ⟨unknown, List.not_mem_nil, List.not_mem_nil⟩
  | some src =>
    obtain ⟨name, texture, entity⟩ := strings src (List.mem_of_find?_eq_some found)
    exact ⟨name, stripParent_noNul texture, entity⟩

theorem CStrings.saved (strings : CStrings config) : CStrings (savedConfig config) := by
  refine ⟨strings.name, strings.nextLevel, strings.background, fun object listed => ?_⟩
  obtain ⟨entry, _, rfl⟩ := List.mem_map.mp listed
  exact newObject_noNul strings.objects entry.1 entry.2

theorem Savable.small (savable : Savable config.layout) (rows : config.layout.rows ≤ editorMaxSize)
    (cols : config.layout.cols ≤ editorMaxSize) : Small (savedConfig config) := by
  obtain ⟨top, bottom, left, right, _, ordered, bottomInside, across, rightInside, _, height, width, _⟩ :=
    croppedLayout_spec savable
  have used : (usedIn config.layout).length ≤ maxObjects := by
    refine (List.length_filter_le ..).trans ?_
    rw [List.length_map, List.length_range]
  have few : (savedConfig config).objects.length ≤ maxObjects := by
    rw [savedConfig, newObjects, List.length_map, List.length_zipIdx]
    exact used
  refine ⟨?_, ?_, few, fun object listed => ?_, fun row listed id present => ?_⟩
  · change (savedLayout config.layout).rows ≤ _
    rw [savedLayout, Grid.rows_map, height]
    omega
  · change (savedLayout config.layout).cols ≤ _
    rw [savedLayout, Grid.cols_map, width]
    omega
  · obtain ⟨k, found⟩ := List.getElem?_of_mem listed
    have position := newObjects_numbered _ _ k object found
    have inside := (List.getElem?_eq_some_iff.mp found).1
    simp only [maxObjects] at few
    omega
  · obtain ⟨i, j, found⟩ := Grid.mem_flatten_iff.mp (List.mem_flatten.mpr ⟨row, listed, present⟩)
    obtain ⟨old, _, member, rfl⟩ := savedLayout_cell savable found
    have position := List.idxOf_lt_length_of_mem member
    simp only [maxObjects] at used
    omega

end

theorem stringAt_written {string : Bytes} (noNul : 0 ∉ string) : stringAt ((string ++ [0]).map some) = .ok string := by
  induction string with
  | nil => rfl
  | cons byte rest ih =>
    obtain ⟨apart, others⟩ := not_or.mp (fun member => noNul (List.mem_cons.mpr member))
    rw [List.cons_append, List.map_cons, stringAt, if_neg (Ne.symm apart), ih others]
    rfl

/-- A level that is saved and opened again from the bytes of its file is the saved level, and
nothing stays allocated. Only when a request for memory is refused may there be no text, and
then a null pointer is written to the file that was opened. -/
theorem save_load_bytes (config : LevelConfig) (rows : 1 ≤ config.layout.rows ∧ config.layout.rows ≤ editorMaxSize)
    (cols : 1 ≤ config.layout.cols ∧ config.layout.cols ≤ editorMaxSize)
    (cells : ∀ r c value, config.layout.get? r c = some value → 0 ≤ value ∧ value ≤ 255) (strings : CStrings config)
    (hooks : Hooks) :
    (saveLevelFile config true hooks = .error .nullPointer ∧ false ∈ hooks.answers) ∨
      ∃ bytes hooks' saved top bottom left right, saveLevelFile config true hooks = .ok (some bytes, hooks') ∧
        hooks'.live = hooks.live ∧ loadLevelBytes (some bytes) = .ok (some (LoadedConfig.ofConfig saved)) ∧
        SavesAs config saved top bottom left right := by
  have savable : Savable config.layout := ⟨rows.1, cols.1, cells⟩
  have small := savable.small rows.2 cols.2
  have tree : CTree nestingLimit (configJson (savedConfig config)) := configJson_tree strings.saved small
  obtain ⟨top, bottom, left, right, saves⟩ := savesAs_savedConfig savable
  obtain ⟨printed, hooks', ran, whole, lost⟩ := print_ok tree true hooks
  unfold saveLevelFile
  rw [saveLevelConfig_eq savable, ok_bind, ran, ok_bind]
  dsimp only
  cases printed with
  | none =>
    obtain ⟨-, refused | long | deep⟩ := lost rfl
    · exact .inl ⟨rfl, refused⟩
    · have short := length_configJson small
      have limit : CJson.intMax.toNat = 2147483647 := rfl
      omega
    · exact absurd deep (lt_irrefl _)
  | some memory =>
    obtain ⟨rfl, live⟩ := whole memory rfl
    have noNul := render_noNul tree true 0
    have read : cString (render true 0 (configJson (savedConfig config))) = render true 0 (configJson (savedConfig config)) :=
      List.takeWhile_eq_self_iff.mpr fun byte member => decide_eq_true fun zero => noNul (zero ▸ member)
    refine .inr ⟨render true 0 (configJson (savedConfig config)), hooks'.deallocate, savedConfig config, top, bottom, left, right,
      ?_, ?_, ?_, saves⟩
    · rw [if_pos rfl, fputs, stringAt_written noNul]
      rfl
    · change hooks'.live - 1 = hooks.live
      omega
    · rw [loadLevelBytes, read, parse_render tree, ok_bind, loadLevelFile, loadLevelConfig_configJson]
      rfl

def oneTileLevel : LevelConfig where
  name := ⟨[34, 10, 195, 169], by decide⟩
  nextLevel := emptyString
  textureBackground := emptyString
  objects := [⟨3, ⟨text "crate", by decide⟩, ⟨text "resources\\crate.png", by decide⟩, emptyString⟩]
  layout := ⟨3, [[0, 3, 0]], by decide⟩

theorem oneTileLevel_bytes :
    (saveLevelFile oneTileLevel true ⟨[true, true], 7⟩ = .error .nullPointer ∧ false ∈ [true, true]) ∨
      ∃ bytes hooks' saved top bottom left right, saveLevelFile oneTileLevel true ⟨[true, true], 7⟩ = .ok (some bytes, hooks') ∧
        hooks'.live = 7 ∧ loadLevelBytes (some bytes) = .ok (some (LoadedConfig.ofConfig saved)) ∧
        SavesAs oneTileLevel saved top bottom left right := by
  have strings : CStrings oneTileLevel := by
    refine ⟨by decide, List.not_mem_nil, List.not_mem_nil, List.forall_mem_singleton.mpr ⟨?_, ?_, List.not_mem_nil⟩⟩
    · change 0 ∉ text "crate"
      decide
    · change 0 ∉ text "resources\\crate.png"
      decide
  refine save_load_bytes oneTileLevel (by decide) (by decide) (fun r c value found => ?_) strings ⟨[true, true], 7⟩
  have all : ∀ cell ∈ oneTileLevel.layout.cells, 0 ≤ cell.2.2 ∧ cell.2.2 ≤ 255 := by decide
  exact all (r, c, value) (Grid.mem_cells.mpr found)

end Trigger.Editor
