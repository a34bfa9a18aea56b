import Trigger.Engine.FilePaths
import Trigger.Engine.Frames

/-! The list of levels, from the directory to the level that is opened.

The list keeps the name of a file before its last dot, and the path is put together again
with the extension in lower case. What the name loses on the way is lost for good, and
the list is drawn only as far as it fits.
-/

set_option autoImplicit false

namespace Trigger.Engine
open Foundation Config

def pathSlash : UInt8 := 47
def pathBackslash : UInt8 := 92

structure DirectoryEntry where
  name : Bytes
  some : name ≠ []
  short : name.length ≤ 255
  plain : ∀ byte ∈ name, byte ≠ 0 ∧ byte ≠ pathSlash

def maxFilepathLength : Nat := 4096

def mapsDir : Bytes := text "maps"

def DirectoryEntry.path (entry : DirectoryEntry) : CharArray maxFilepathLength :=
  ⟨mapsDir ++ pathSlash :: entry.name, by
    have short := entry.short
    have four : mapsDir.length = 4 := by decide
    rw [List.length_append, List.length_cons, four, maxFilepathLength]
    omega⟩

/-- `readdir` gives the entries in some order; none are given where the directory is missing. -/
def loadDirectoryFiles (directory : List DirectoryEntry) : List (CharArray maxFilepathLength) :=
  (directory.filter fun entry => entry.name ≠ text "." ∧ entry.name ≠ text "..").map DirectoryEntry.path

/-- The files that `scan_level_files` accepts. -/
def acceptedFiles (directory : List DirectoryEntry) : List (CharArray maxFilepathLength) :=
  (loadDirectoryFiles directory).filter fun path => isFileExtension path.val jsonExtension

/-- `name_no_ext`. -/
def levelName (path : CharArray maxFilepathLength) : Bytes := cutAtLast extensionDot (getFileName path.val)

def scanLevelFiles (directory : List DirectoryEntry) (menu : Menu) : Menu :=
  { menu with levelFiles := (acceptedFiles directory).map levelName, levelSelectIndex := 0 }

/-- A click in the list selects the entry of a file, and its path is the one that is opened. -/
def Opens (menu : Menu) (click : Click Rat) (i : Nat) (path : Bytes) : Prop :=
  (menu.pick click).levelSelectIndex = i ∧ (menu.pick click).selectedLevelPath.val = path ∧
    pickedLevel menu click = some path

/-- Every accepted file is opened from its own entry. -/
def LevelsOpen (directory : List DirectoryEntry) (menu : Menu) : Prop :=
  ∀ i path, (acceptedFiles directory)[i]? = some path →
    ∃ point, Opens (scanLevelFiles directory menu).openList (some point) i path.val

def itemsFitting : Nat := 13

def Menu.chosen (menu : Menu) (entry : Bytes × Nat) : Menu :=
  { menu with
    levelSelectIndex := entry.2
    selectedLevelPath := levelPath entry.1
    levelSelectActive := false }

theorem checkCollision_whole {x y left top width height : Int} :
    CheckCollisionPointRec (⟨(x : Rat), (y : Rat)⟩ : Vector2 Rat) ⟨ofInt left, ofInt top, ofInt width, ofInt height⟩ ↔
      (left ≤ x ∧ x < left + width) ∧ top ≤ y ∧ y < top + height := by
  have whole (value : Int) : (ofInt value : Rat) = value := rfl
  simp only [CheckCollisionPointRec, whole, not_lt]
  norm_cast
  exact and_assoc.symm

theorem clicked_some {point : Vector2 Rat} {box : Rectangle Rat} :
    clicked (some point) box ↔ CheckCollisionPointRec point box := by
  constructor
  · rintro ⟨_, member, inside⟩
    cases member
    exact inside
  · exact fun inside => ⟨point, rfl, inside⟩

def itemCorner (i : Nat) : Vector2 Rat := ⟨((20 : Int) : Rat), ((40 + 24 * i : Int) : Rat)⟩

theorem itemCorner_clicked {i j : Nat} : clicked (some (itemCorner i)) (itemRect 10 10 220 j) ↔ j = i := by
  rw [clicked_some, itemCorner, itemRect, checkCollision_whole]
  simp only [itemHeight]
  omega

theorem foldl_zipIdx_at {A B : Type} {step : B → A × Nat → B} (act : B → A → B) {i : Nat}
    (acts : ∀ state entry, step state entry = if entry.2 = i then act state entry.1 else state) {source : List A} {start : Nat}
    (early : start ≤ i) {value : A} (found : source[i - start]? = some value) (state : B) :
    (source.zipIdx start).foldl step state = act state value := by
  have after (rest : List A) (next : Nat) (late : i < next) (state : B) : (rest.zipIdx next).foldl step state = state := by
    induction rest generalizing next with
    | nil => rfl
    | cons head rest ih =>
      have other : next ≠ i := by omega
      rw [List.zipIdx_cons, List.foldl_cons, acts, if_neg other]
      exact ih (next + 1) (by omega)
  induction source generalizing start state with
  | nil => cases found
  | cons head rest ih =>
    rw [List.zipIdx_cons, List.foldl_cons, acts]
    by_cases here : start = i
    · rw [if_pos here]
      rw [here, Nat.sub_self] at found
      cases found
      exact after rest (start + 1) (by omega) _
    · rw [if_neg here]
      refine ih (by omega) ?_ state
      rwa [show i - start = i - (start + 1) + 1 by omega, List.getElem?_cons_succ] at found

section
variable {menu : Menu} {i : Nat} {name : Bytes}

theorem pick_eq (menu : Menu) (click : Click Rat) : menu.pick click =
    if clicked click ⟨ofInt 180, ofInt 12, ofInt 45, ofInt 20⟩ then { menu with levelSelectActive := false }
    else (menu.levelFiles.take itemsFitting).zipIdx.foldl (selectItem 10 10 220 click) menu := by
  have fitting : menu.levelFiles.take (min itemsFitting menu.levelFiles.length) = menu.levelFiles.take itemsFitting := by
    rw [List.take_eq_take_iff, min_assoc, min_self]
  change (if _ then _ else ((menu.levelFiles.take (min itemsFitting menu.levelFiles.length)).zipIdx.foldl _ menu)) = _
  rw [fitting]
  rfl

theorem pick_corner (fits : i < itemsFitting) (found : menu.levelFiles[i]? = some name) :
    menu.pick (some (itemCorner i)) = menu.chosen (name, i) := by
  have beside : ¬ clicked (some (itemCorner i)) (⟨ofInt 180, ofInt 12, ofInt 45, ofInt 20⟩ : Rectangle Rat) := by
    rw [clicked_some, itemCorner, checkCollision_whole]
    omega
  have acts (state : Menu) (entry : Bytes × Nat) : selectItem 10 10 220 (some (itemCorner i)) state entry =
      if entry.2 = i then state.chosen (entry.1, i) else state := by
    unfold selectItem
    simp only [itemCorner_clicked]
    split
    · rename_i same
      rw [← same]
      rfl
    · rfl
  have drawn : (menu.levelFiles.take itemsFitting)[i - 0]? = some name := by
    rw [Nat.sub_zero, List.getElem?_take, if_pos fits, found]
  rw [pick_eq, if_neg beside]
  exact foldl_zipIdx_at (fun state value => state.chosen (value, i)) acts (Nat.zero_le i) drawn menu

theorem pick_cases (menu : Menu) (click : Click Rat) :
    (menu.pick click).selectedLevelPath = menu.selectedLevelPath ∨
      ∃ name j, j < itemsFitting ∧ menu.levelFiles[j]? = some name ∧ menu.pick click = menu.chosen (name, j) := by
  rw [pick_eq]
  split
  · exact .inl rfl
  · have ends : (menu.levelFiles.take itemsFitting).zipIdx.foldl (selectItem 10 10 220 click) menu = menu ∨
        ∃ entry ∈ (menu.levelFiles.take itemsFitting).zipIdx,
          (menu.levelFiles.take itemsFitting).zipIdx.foldl (selectItem 10 10 220 click) menu = menu.chosen entry := by
      refine List.foldlRecOn (motive := fun state => state = menu ∨
        ∃ entry ∈ (menu.levelFiles.take itemsFitting).zipIdx, state = menu.chosen entry) _ _ (.inl rfl)
        fun state before entry member => ?_
      unfold selectItem
      split
      · refine .inr ⟨entry, member, ?_⟩
        rcases before with rfl | ⟨earlier, -, rfl⟩ <;> rfl
      · exact before
    rcases ends with same | ⟨entry, member, same⟩
    · exact .inl (congrArg Menu.selectedLevelPath same)
    · have found := List.mem_zipIdx_iff_getElem?.mp member
      rw [List.getElem?_take] at found
      split at found
      · rename_i fits
        exact .inr ⟨entry.1, entry.2, fits, found, same⟩
      · cases found

theorem levelPath_ne_nil (name : Bytes) : (levelPath name).val ≠ [] := by
  intro empty
  have size := congrArg List.length empty
  have five : (text "maps/").length = 5 := by decide
  simp [levelPath, truncated, five] at size

/-- An entry of the open list is opened exactly where it is drawn, and by the path of its name. -/
theorem opens_iff {path : Bytes} (some' : path ≠ []) :
    (∃ point, Opens menu.openList (some point) i path) ↔
      i < itemsFitting ∧ ∃ name, menu.levelFiles[i]? = some name ∧ (levelPath name).val = path := by
  constructor
  · rintro ⟨point, index, selected, -⟩
    rcases pick_cases menu.openList (some point) with same | ⟨name, j, fits, found, same⟩
    · rw [same] at selected
      exact absurd selected.symm some'
    · rw [same] at index selected
      cases index
      exact ⟨fits, name, found, selected⟩
  · rintro ⟨fits, name, found, rfl⟩
    have chosen : menu.openList.pick (some (itemCorner i)) = menu.openList.chosen (name, i) := pick_corner fits found
    refine ⟨itemCorner i, ?_, ?_, ?_⟩
    · rw [chosen]
      rfl
    · rw [chosen]
      rfl
    · rw [pickedLevel, chosen]
      exact if_pos ⟨rfl, levelPath_ne_nil name⟩

end

/-- The path that the menu puts together from the name is the one of the file. -/
def NamesItself (name : Bytes) : Prop := name.length ≤ 250 ∧ pathBackslash ∉ name ∧ jsonExtension <:+ name

instance (name : Bytes) : Decidable (NamesItself name) := inferInstanceAs (Decidable (_ ∧ _))

theorem mem_pathSeparators_iff {byte : UInt8} : byte ∈ pathSeparators ↔ byte = pathBackslash ∨ byte = pathSlash := by
  have two : pathSeparators = [pathBackslash, pathSlash] := by decide
  rw [two, List.mem_cons, List.mem_singleton]

theorem DirectoryEntry.path_val (entry : DirectoryEntry) :
    entry.path.val = mapsDir ++ [pathSlash] ++ entry.name := by
  rw [List.append_assoc]
  rfl

theorem accepted_iff {entry : DirectoryEntry} : isFileExtension entry.path.val jsonExtension = true ↔
    ∃ stem ext, entry.name = stem ++ ext ∧ IsJson ext := by
  have undotted : extensionDot ∉ mapsDir ++ [pathSlash] := by decide
  rw [isFileExtension_json_iff, entry.path_val]
  constructor
  · rintro ⟨front, ext, -, same, json⟩
    rcases List.append_eq_append_iff.mp same with ⟨stem, rfl, split⟩ | ⟨piece, split, behind⟩
    · exact ⟨stem, ext, split, json⟩
    · cases piece with
      | nil => exact ⟨[], ext, behind.symm, json⟩
      | cons head rest =>
        -- The extension would begin in the directory, which has no dot.
        obtain ⟨_, begins, -⟩ := json.spelled
        rw [begins] at behind
        obtain ⟨rfl, -⟩ := List.cons.inj behind
        exact absurd (by rw [split]; simp) undotted
  · rintro ⟨stem, ext, split, json⟩
    refine ⟨mapsDir ++ [pathSlash] ++ stem, ext, by simp, ?_, json⟩
    rw [split, ← List.append_assoc]

section
variable {entry : DirectoryEntry} {stem ext : Bytes}

theorem levelName_eq (split : entry.name = stem ++ ext) (json : IsJson ext) :
    levelName entry.path = getFileName (mapsDir ++ pathSlash :: stem) := by
  obtain ⟨rest, same, undotted, plain⟩ := json.spelled
  have path : entry.path.val = (mapsDir ++ pathSlash :: stem) ++ ext := by
    rw [List.append_assoc, List.cons_append, ← split]
    rfl
  rw [levelName, path, getFileName_append _ plain, same, cutAtLast_append undotted]

theorem no_backslash_iff (split : entry.name = stem ++ ext) (json : IsJson ext) :
    pathBackslash ∉ entry.name ↔ ∀ byte ∈ stem, byte ∉ pathSeparators := by
  obtain ⟨-, -, -, plain⟩ := json.spelled
  have slashFree : pathSlash ∉ entry.name := fun member => (entry.plain _ member).2 rfl
  rw [split, List.mem_append, not_or]
  constructor
  · rintro ⟨absent, -⟩ byte member separator
    rcases mem_pathSeparators_iff.mp separator with rfl | rfl
    · exact absent member
    · exact slashFree (split ▸ List.mem_append_left _ member)
  · intro apart
    exact ⟨fun member => apart _ member (mem_pathSeparators_iff.mpr (.inl rfl)),
      fun member => plain _ member (mem_pathSeparators_iff.mpr (.inl rfl))⟩

theorem json_suffix_iff (json : IsJson ext) : jsonExtension <:+ stem ++ ext ↔ ext = jsonExtension := by
  constructor
  · intro ends
    have within := List.suffix_of_suffix_length_le ends (List.suffix_append stem ext) json.length_eq.ge
    exact (within.eq_of_length json.length_eq.symm).symm
  · rintro rfl
    exact List.suffix_append ..

theorem length_levelPath_le (name : Bytes) : (levelPath name).val.length ≤ name.length + 10 := by
  have five : (text "maps/").length = 5 ∧ (text ".json").length = 5 := by decide
  refine Nat.le_trans length_truncated_le ?_
  simp only [List.length_append, five.1, five.2]
  omega

theorem levelPath_stem_iff (json : IsJson ext) : (levelPath stem).val = mapsDir ++ [pathSlash] ++ (stem ++ ext) ↔
    (stem ++ ext).length ≤ 250 ∧ ext = jsonExtension := by
  have maps : text "maps/" = mapsDir ++ [pathSlash] := by decide
  have rebuilt : levelPath stem = truncated 256 room256 (mapsDir ++ [pathSlash] ++ (stem ++ jsonExtension)) := by
    rw [levelPath, maps, List.append_assoc]
    rfl
  have five : (mapsDir ++ [pathSlash]).length = 5 := by decide
  have length (name : Bytes) : (mapsDir ++ [pathSlash] ++ name).length = 5 + name.length := by
    rw [List.length_append, five]
  have same : (stem ++ jsonExtension).length = (stem ++ ext).length := by
    rw [List.length_append, List.length_append, json.length_eq]
  rw [rebuilt]
  constructor
  · intro whole
    have few := (truncated 256 room256 (mapsDir ++ [pathSlash] ++ (stem ++ jsonExtension))).property
    rw [whole, length] at few
    rw [truncated_of_fits (by rw [length]; omega)] at whole
    exact ⟨by omega, (List.append_cancel_left (List.append_cancel_left whole)).symm⟩
  · rintro ⟨few, rfl⟩
    exact truncated_of_fits (by rw [length]; omega)

/-- The path of an accepted file is put together again exactly where its name is short, has
no backslash and the extension in lower case. -/
theorem levelPath_iff (accepted : isFileExtension entry.path.val jsonExtension = true) :
    (levelPath (levelName entry.path)).val = entry.path.val ↔ NamesItself entry.name := by
  obtain ⟨stem, ext, split, json⟩ := accepted_iff.mp accepted
  rw [NamesItself, no_backslash_iff split json, levelName_eq split json, entry.path_val, split, json_suffix_iff json]
  by_cases plain : ∀ byte ∈ stem, byte ∉ pathSeparators
  · rw [getFileName_cons (mem_pathSeparators_iff.mpr (.inr rfl)) plain, levelPath_stem_iff json, and_iff_right plain]
  · -- The part before the backslash is missing in the path.
    have shorter : (getFileName (mapsDir ++ pathSlash :: stem)).length < stem.length := by
      push Not at plain
      rw [List.append_cons]
      exact length_getFileName_lt plain
    refine iff_of_false (fun same => ?_) fun both => plain both.2.1
    have five : jsonExtension.length = 5 ∧ mapsDir.length = 4 := by decide
    have most := length_levelPath_le (getFileName (mapsDir ++ pathSlash :: stem))
    simp only [same, List.length_append, List.length_singleton, json.length_eq, five.1, five.2] at most
    omega

end

theorem listed_of_accepted {entry : DirectoryEntry} (accepted : isFileExtension entry.path.val jsonExtension = true) :
    entry.name ≠ text "." ∧ entry.name ≠ text ".." := by
  obtain ⟨stem, ext, split, json⟩ := accepted_iff.mp accepted
  have long : 5 ≤ entry.name.length := by
    have five : ext.length = 5 := json.length_eq
    rw [split, List.length_append]
    omega
  constructor <;> rintro same <;> rw [same] at long <;> exact absurd long (by decide)

theorem mem_acceptedFiles {directory : List DirectoryEntry} {path : CharArray maxFilepathLength} :
    path ∈ acceptedFiles directory ↔
      ∃ entry ∈ directory, isFileExtension entry.path.val jsonExtension = true ∧ entry.path = path := by
  rw [acceptedFiles, List.mem_filter, loadDirectoryFiles, List.mem_map]
  constructor
  · rintro ⟨⟨entry, member, rfl⟩, accepted⟩
    exact ⟨entry, List.mem_of_mem_filter member, accepted, rfl⟩
  · rintro ⟨entry, member, accepted, rfl⟩
    exact ⟨⟨entry, List.mem_filter.mpr ⟨member, decide_eq_true (listed_of_accepted accepted)⟩, rfl⟩, accepted⟩

theorem length_acceptedFiles (directory : List DirectoryEntry) : (acceptedFiles directory).length =
    directory.countP fun entry => isFileExtension entry.path.val jsonExtension := by
  rw [acceptedFiles, ← List.countP_eq_length_filter, loadDirectoryFiles, List.countP_map, List.countP_filter]
  refine List.countP_congr fun entry _ => ?_
  rw [Bool.and_eq_true, decide_eq_true_iff]
  exact ⟨fun both => both.1, fun accepted => ⟨accepted, listed_of_accepted accepted⟩⟩

/-- Every file can be opened exactly where no more are accepted than fit and each of them is
named as the menu names it. -/
theorem levelsOpen_iff (directory : List DirectoryEntry) (menu : Menu) : LevelsOpen directory menu ↔
    directory.countP (fun entry => isFileExtension entry.path.val jsonExtension) ≤ itemsFitting ∧
      ∀ entry ∈ directory, isFileExtension entry.path.val jsonExtension = true → NamesItself entry.name := by
  have opened {i : Nat} {path : CharArray maxFilepathLength} (found : (acceptedFiles directory)[i]? = some path) :
      ∃ entry ∈ directory, isFileExtension entry.path.val jsonExtension = true ∧ entry.path = path ∧
        ((∃ point, Opens (scanLevelFiles directory menu).openList (some point) i path.val) ↔
          i < itemsFitting ∧ NamesItself entry.name) := by
    obtain ⟨entry, member, accepted, rfl⟩ := mem_acceptedFiles.mp (List.mem_of_getElem? found)
    refine ⟨entry, member, accepted, rfl, ?_⟩
    have named : (scanLevelFiles directory menu).levelFiles[i]? = some (levelName entry.path) := by
      rw [scanLevelFiles, List.getElem?_map, found, Option.map_some]
    rw [opens_iff (show entry.path.val ≠ [] by simp [DirectoryEntry.path]), named, ← levelPath_iff accepted]
    simp
  rw [← length_acceptedFiles]
  constructor
  · intro each
    refine ⟨?_, fun entry member accepted => ?_⟩
    · by_contra many
      have drawn : itemsFitting < (acceptedFiles directory).length := not_le.mp many
      have found := List.getElem?_eq_getElem drawn
      obtain ⟨_, _, _, _, outcome⟩ := opened found
      exact absurd (outcome.mp (each _ _ found)).1 (Nat.lt_irrefl _)
    · obtain ⟨i, found⟩ := List.mem_iff_getElem?.mp (mem_acceptedFiles.mpr ⟨entry, member, accepted, rfl⟩)
      obtain ⟨other, _, _, same, outcome⟩ := opened found
      have name : other.name = entry.name := (List.cons.inj (List.append_cancel_left (congrArg Subtype.val same))).2
      exact name ▸ (outcome.mp (each i _ found)).2
  · rintro ⟨few, named⟩ i path found
    obtain ⟨entry, member, accepted, _, outcome⟩ := opened found
    have below := (List.getElem?_eq_some_iff.mp found).1
    exact outcome.mpr ⟨Nat.lt_of_lt_of_le below few, named entry member accepted⟩

def capitals : DirectoryEntry := ⟨text "CAVE.JSON", by decide, by decide, forall_mem_of_all (by decide)⟩

/-- It is listed, and the menu opens another path. -/
theorem capitals_not_levelsOpen : ¬ ∃ menu, LevelsOpen [capitals] menu := by
  rintro ⟨menu, each⟩
  have accepted : acceptedFiles [capitals] = [capitals.path] := by decide
  have found : (acceptedFiles [capitals])[0]? = some capitals.path := by rw [accepted]; rfl
  obtain ⟨-, name, listed, same⟩ := (opens_iff (by decide)).mp (each 0 capitals.path found)
  rw [scanLevelFiles, accepted] at listed
  cases listed
  exact absurd same (by decide)

end Trigger.Engine
