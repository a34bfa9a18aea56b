import Trigger.Editor.RoundTrip
import Trigger.Engine.Tiles
import Mathlib.Data.Set.Card

/-! What the tiles of a saved level do in the game.

The game gives the ids 0 and 3 a fixed meaning, and saving renumbers every used
id by rank. The roles survive exactly when the ranks of the fixed ids do.
-/

set_option autoImplicit false

namespace Trigger.Editor
open Foundation Config Engine

/-- A palette with the fixed ids of the editor. -/
structure EditorPalette (objects : List ObjectConfig) : Prop where
  distinct : (objects.map ObjectConfig.id).Nodup
  range : ∀ object ∈ objects, 0 ≤ object.id ∧ object.id ≤ 255
  empty : ∃ object ∈ objects, object.id = 0 ∧ object.entity.val = []
  player : ∃ object ∈ objects, object.id = 1 ∧ object.entity.val = text "player"
  levelEnd : ∃ object ∈ objects, object.id = 3 ∧ entitySpawn object = none

/-- Every cell of the saved box plays the role of the cell it was copied from. -/
def SaveKeepsRoles (config : LevelConfig) : Prop :=
  ∃ file saved, saveLevelConfig config = .ok file ∧
    loadLevelFile (some file) = .ok (some (LoadedConfig.ofConfig saved)) ∧
    ∀ top bottom left right, SmallestBox config.layout top bottom left right →
      ∀ i j old, top + i ≤ bottom → left + j ≤ right →
        config.layout.get? (top + i) (left + j) = some old →
        ∃ new, saved.layout.get? i j = some new ∧
          roleOf saved.objects new = roleOf config.objects old

def BoxHolds (layout : MapLayout) (id : Int) : Prop :=
  ∃ top bottom left right r c, SmallestBox layout top bottom left right ∧
    top ≤ r ∧ r ≤ bottom ∧ left ≤ c ∧ c ≤ right ∧ layout.get? r c = some id

/-- The box holds an empty cell; a level end in it comes with a player and an
object 2; and without one no plain tile has exactly three smaller ids beside it. -/
structure KeepsFixedIds (config : LevelConfig) : Prop where
  empty : BoxHolds config.layout 0
  levelEnd : BoxHolds config.layout 3 → BoxHolds config.layout 1 ∧ BoxHolds config.layout 2
  fourth : ¬ BoxHolds config.layout 3 → ∀ id, BoxHolds config.layout id →
    { smaller | BoxHolds config.layout smaller ∧ smaller < id }.ncard = 3 →
    (spawnOf config.objects id).isSome

theorem boxHolds_iff {layout : MapLayout} (savable : Savable layout) {id : Int} :
    BoxHolds layout id ↔ id ∈ usedIn layout := by
  obtain ⟨top, bottom, left, right, box, ordered, _, across, _, _, height, width, cells⟩ :=
    croppedLayout_spec savable
  rw [mem_usedIn_iff savable]
  constructor
  · rintro ⟨top', bottom', left', right', r, c, box', below, above, after, before, found⟩
    obtain ⟨rfl, rfl, rfl, rfl⟩ := box.unique box'
    refine ⟨r - top, c - left, ?_⟩
    rw [cells _ _ (by omega) (by omega)]
    simpa [Nat.add_sub_cancel' below, Nat.add_sub_cancel' after] using found
  · rintro ⟨i, j, found⟩
    have inside := Grid.inside_of_get? found
    rw [height, width] at inside
    rw [cells i j inside.1 inside.2] at found
    exact ⟨top, bottom, left, right, top + i, left + j, box, by omega, by omega, by omega, by omega, found⟩

/-- The rank of a used id is the number of smaller ids in the box. -/
theorem idxOf_usedIn_eq_ncard {layout : MapLayout} (savable : Savable layout) {id : Int}
    (member : id ∈ usedIn layout) :
    (usedIn layout).idxOf id = { smaller | BoxHolds layout smaller ∧ smaller < id }.ncard := by
  have increasing : (usedIn layout).Pairwise (· < ·) := oldIdsSorted_increasing _
  have nodup : (usedIn layout).Nodup := oldIdsSorted_nodup _
  have same : { smaller | BoxHolds layout smaller ∧ smaller < id } =
      (((usedIn layout).filter (· < id)).toFinset : Set Int) := by
    ext smaller
    simp [boxHolds_iff savable]
  rw [same, Set.ncard_coe_finset, List.toFinset_card_of_nodup (nodup.filter _),
    idxOf_eq_countP increasing member, List.countP_eq_length_filter]

theorem nonneg_of_boxHolds {layout : MapLayout} (savable : Savable layout) {id : Int}
    (held : BoxHolds layout id) : 0 ≤ id := by
  obtain ⟨_, _, _, _, r, c, _, _, _, _, _, found⟩ := held
  exact (savable.cells r c id found).1

theorem exists_boxHolds {layout : MapLayout} (savable : Savable layout) : ∃ id, BoxHolds layout id := by
  obtain ⟨top, bottom, left, right, box, ordered, _, across, _, _⟩ := croppedLayout_spec savable
  obtain ⟨id, found⟩ := (layout.exists_get?_iff top left).mpr ⟨by omega, by omega⟩
  exact ⟨id, top, bottom, left, right, top, left, box, by omega, ordered, by omega, across, found⟩

theorem objectById_saved {config : LevelConfig} {old : Int} {object : ObjectConfig}
    (member : old ∈ usedIn config.layout) (found : objectById config.objects old = some object) :
    ∃ saved, objectById (savedConfig config).objects ((usedIn config.layout).idxOf old) = some saved ∧
      entitySpawn saved = entitySpawn object := by
  have position := List.idxOf_lt_length_of_mem member
  have stored : (savedConfig config).objects[(usedIn config.layout).idxOf old]? =
      some (newObject config.objects old ((usedIn config.layout).idxOf old)) := by
    rw [savedConfig, newObjects_getElem?, List.getElem?_eq_getElem position,
      List.getElem_idxOf position, Option.map_some]
  refine ⟨_, (newObjects_numbered _ _).objectById stored, ?_⟩
  simp [newObject, found, entitySpawn]

theorem saveKeepsRoles_iff_ranks {config : LevelConfig} (savable : Savable config.layout) :
    SaveKeepsRoles config ↔ ∀ old ∈ usedIn config.layout,
      roleOf (savedConfig config).objects ((usedIn config.layout).idxOf old) =
        roleOf config.objects old := by
  obtain ⟨top, bottom, left, right, box, ordered, _, across, _, _, height, width, cells⟩ :=
    croppedLayout_spec savable
  constructor
  · rintro ⟨file, saved, written, loaded, kept⟩ old member
    rw [saveLevelConfig_eq savable] at written
    cases written
    rw [loadLevelFile, loadLevelConfig_configJson] at loaded
    have same : savedConfig config = saved := by
      simp only [Except.map, Except.ok.injEq, Option.some.injEq] at loaded
      exact LoadedConfig.ofConfig_injective loaded
    subst same
    obtain ⟨i, j, found⟩ := (mem_usedIn_iff savable).mp member
    have inside := Grid.inside_of_get? found
    rw [height, width] at inside
    obtain ⟨new, foundNew, role⟩ := kept top bottom left right box i j old (by omega) (by omega)
      (by rw [← cells i j inside.1 inside.2, found])
    rw [savedConfig, savedLayout, Grid.get?_map, found, Option.map_some, Option.some.injEq] at foundNew
    rw [foundNew, role]
  · intro kept
    refine ⟨_, _, saveLevelConfig_eq savable, by
      rw [loadLevelFile, loadLevelConfig_configJson, Except.map], ?_⟩
    intro top' bottom' left' right' box' i j old row col found
    obtain ⟨rfl, rfl, rfl, rfl⟩ := box.unique box'
    have copied : (croppedLayout config.layout).get? i j = some old := by
      rw [cells i j (by omega) (by omega), found]
    refine ⟨(usedIn config.layout).idxOf old, ?_, kept old ((mem_usedIn_iff savable).mpr ⟨i, j, copied⟩)⟩
    rw [savedConfig, savedLayout, Grid.get?_map, copied, Option.map_some]

/-- The ids of the box below a bound. -/
def below (layout : MapLayout) (id : Int) : Set Int := { smaller | BoxHolds layout smaller ∧ smaller < id }

theorem below_finite {layout : MapLayout} (savable : Savable layout) (id : Int) :
    (below layout id).Finite :=
  (usedIn layout).finite_toSet.subset fun _ member => (boxHolds_iff savable).mp member.1

theorem spawnOf_of_found {objects : List ObjectConfig} {id : Int} {object : ObjectConfig}
    (found : objectById objects id = some object) (fixed : id ≠ 0) :
    spawnOf objects id = entitySpawn object := by
  simp [spawnOf, fixed, found]

/-- Among the ids in the box, 0 alone gets the rank 0, and of those that spawn nothing 3 alone
gets the rank 3. -/
def RanksFixed (config : LevelConfig) : Prop :=
  ∀ id, BoxHolds config.layout id → ((below config.layout id).ncard = 0 ↔ id = 0) ∧
    (id ≠ 0 → spawnOf config.objects id = none → ((below config.layout id).ncard = 3 ↔ id = 3))

/-- Ranks keep the roles exactly when they keep the ids 0 and 3 apart from the
ids of plain tiles. -/
theorem ranks_keep_roles_iff {config : LevelConfig} (savable : Savable config.layout)
    (palette : EditorPalette config.objects)
    (painted : ∀ r c id, config.layout.get? r c = some id → ∃ object ∈ config.objects, object.id = id) :
    (∀ old ∈ usedIn config.layout,
      roleOf (savedConfig config).objects ((usedIn config.layout).idxOf old) =
        roleOf config.objects old) ↔ RanksFixed config := by
  refine forall_congr' fun id => ?_
  rw [boxHolds_iff savable]
  refine forall_congr' fun member => ?_
  have held := (boxHolds_iff savable).mpr member
  have rank : (usedIn config.layout).idxOf id = (below config.layout id).ncard :=
    idxOf_usedIn_eq_ncard savable member
  obtain ⟨_, _, _, _, r, c, _, _, _, _, _, cell⟩ := held
  obtain ⟨object, listed, rfl⟩ := painted r c id cell
  have found := objectById_of_unique palette.distinct listed
  obtain ⟨saved, foundSaved, sameSpawn⟩ := objectById_saved member found
  rw [roleOf_eq_roleWith foundSaved (by omega),
    roleOf_eq_roleWith found (palette.range object listed).1, sameSpawn, roleWith_eq_iff, rank]
  by_cases zero : object.id = 0
  · simp +contextual [zero]
  · rw [spawnOf_of_found found zero]
    simp only [zero, iff_false, Int.natCast_eq_zero, ne_eq, not_false_eq_true, true_implies]
    refine and_congr_right fun positive => ?_
    simp only [positive, not_false_eq_true, true_implies]
    exact forall_congr' fun _ => by norm_cast

theorem ncard_zero_one_two : ({0, 1, 2} : Set Int).ncard = 3 :=
  Set.ncard_eq_three.mpr ⟨0, 1, 2, by decide, by decide, by decide, rfl⟩

theorem below_three_subset {layout : MapLayout} (savable : Savable layout) :
    below layout 3 ⊆ {0, 1, 2} := by
  rintro id ⟨held, bound⟩
  have range := nonneg_of_boxHolds savable held
  simp only [Set.mem_insert_iff, Set.mem_singleton_iff]
  omega

theorem ncard_below_three_iff {layout : MapLayout} (savable : Savable layout) :
    (below layout 3).ncard = 3 ↔ BoxHolds layout 0 ∧ BoxHolds layout 1 ∧ BoxHolds layout 2 := by
  constructor
  · intro three
    have same : below layout 3 = {0, 1, 2} :=
      Set.eq_of_subset_of_ncard_le (below_three_subset savable)
        (by rw [ncard_zero_one_two, three]) (Set.toFinite _)
    have held (id : Int) (member : id ∈ ({0, 1, 2} : Set Int)) : BoxHolds layout id :=
      (same.symm ▸ member : id ∈ below layout 3).1
    exact ⟨held 0 (by simp), held 1 (by simp), held 2 (by simp)⟩
  · rintro ⟨zero, one, two⟩
    have same : below layout 3 = {0, 1, 2} := by
      apply (below_three_subset savable).antisymm
      rintro id (rfl | rfl | rfl)
      · exact ⟨zero, by omega⟩
      · exact ⟨one, by omega⟩
      · exact ⟨two, by omega⟩
    rw [same, ncard_zero_one_two]

theorem exists_first_held {layout : MapLayout} (savable : Savable layout) :
    ∃ id, BoxHolds layout id ∧ (below layout id).ncard = 0 := by
  obtain ⟨other, held⟩ := exists_boxHolds savable
  have nonempty : 0 < (usedIn layout).length :=
    List.length_pos_of_mem ((boxHolds_iff savable).mp held)
  have nodup : (usedIn layout).Nodup := oldIdsSorted_nodup _
  have member := List.getElem_mem nonempty
  refine ⟨(usedIn layout)[0], (boxHolds_iff savable).mpr member, ?_⟩
  rw [← show _ = (below layout _).ncard from idxOf_usedIn_eq_ncard savable member,
    nodup.idxOf_getElem]

theorem ncard_below_lt {layout : MapLayout} (savable : Savable layout) {first second : Int}
    (less : first < second) (held : BoxHolds layout first) :
    (below layout first).ncard < (below layout second).ncard := by
  refine Set.ncard_lt_ncard ⟨fun id member => ⟨member.1, member.2.trans less⟩, fun subset => ?_⟩
    (below_finite savable second)
  exact lt_irrefl first (subset ⟨held, less⟩).2

theorem ncard_below_inj {layout : MapLayout} (savable : Savable layout) {first second : Int}
    (held : BoxHolds layout first) (held' : BoxHolds layout second)
    (same : (below layout first).ncard = (below layout second).ncard) : first = second := by
  rcases lt_trichotomy first second with less | equal | greater
  · exact absurd same (ncard_below_lt savable less held).ne
  · exact equal
  · exact absurd same (ncard_below_lt savable greater held').ne'

theorem ncard_below_zero {layout : MapLayout} (savable : Savable layout) :
    (below layout 0).ncard = 0 := by
  refine (Set.ncard_eq_zero (below_finite savable 0)).mpr
    (Set.eq_empty_of_forall_notMem fun id member => ?_)
  exact absurd member.2 (not_lt.mpr (nonneg_of_boxHolds savable member.1))

theorem keepsFixedIds_of_ranks {config : LevelConfig} (palette : EditorPalette config.objects)
    (savable : Savable config.layout) (kept : RanksFixed config) : KeepsFixedIds config := by
  have plainEnd : spawnOf config.objects 3 = none := by
    obtain ⟨object, listed, id, plain⟩ := palette.levelEnd
    have found := objectById_of_unique palette.distinct listed
    rw [id] at found
    rw [spawnOf_of_found found (by decide), plain]
  obtain ⟨first, firstHeld, none⟩ := exists_first_held savable
  -- The smallest id of the box gets the value 0, and only the empty cell plays its role.
  have zero : first = 0 := (kept first firstHeld).1.mp none
  subst zero
  refine ⟨firstHeld, fun held => ?_, fun missing id held three => ?_⟩
  · have three := ((kept 3 held).2 (by decide) plainEnd).mpr rfl
    exact ((ncard_below_three_iff savable).mp three).2
  · -- A solid tile with the value 3 would end the level, so the id spawns something.
    by_contra plain
    have positive : id ≠ 0 := by
      rintro rfl
      exact absurd ((ncard_below_zero savable).symm.trans three) (by decide)
    have same := ((kept id held).2 positive (Option.not_isSome_iff_eq_none.mp plain)).mp three
    exact missing (same ▸ held)

theorem ranksFixed_of_keeps {config : LevelConfig} (savable : Savable config.layout)
    (fixed : KeepsFixedIds config) : RanksFixed config := by
  intro id held
  refine ⟨⟨fun none => ?_, ?_⟩, fun positive plain => ⟨fun three => ?_, ?_⟩⟩
  · exact ncard_below_inj savable held fixed.empty (none.trans (ncard_below_zero savable).symm)
  · rintro rfl
    exact ncard_below_zero savable
  · -- With a level end in the box, that is the id with three smaller ones.
    by_cases last : BoxHolds config.layout 3
    · obtain ⟨one, two⟩ := fixed.levelEnd last
      have lastThree := (ncard_below_three_iff savable).mpr ⟨fixed.empty, one, two⟩
      exact ncard_below_inj savable held last (three.trans lastThree.symm)
    · have spawns := fixed.fourth last id held three
      rw [plain] at spawns
      cases spawns
  · rintro rfl
    obtain ⟨one, two⟩ := fixed.levelEnd held
    exact (ncard_below_three_iff savable).mpr ⟨fixed.empty, one, two⟩

/-- Saving keeps the role of every tile in the box exactly when the box keeps
the fixed ids in place. -/
theorem saveKeepsRoles_iff (config : LevelConfig) (palette : EditorPalette config.objects)
    (rows : 1 ≤ config.layout.rows) (cols : 1 ≤ config.layout.cols)
    (painted : ∀ r c id, config.layout.get? r c = some id →
      ∃ object ∈ config.objects, object.id = id) :
    SaveKeepsRoles config ↔ KeepsFixedIds config := by
  have savable : Savable config.layout := .of_painted rows cols palette.range painted
  rw [saveKeepsRoles_iff_ranks savable, ranks_keep_roles_iff savable palette painted]
  exact ⟨keepsFixedIds_of_ranks palette savable, ranksFixed_of_keeps savable⟩

def walledLevel : LevelConfig where
  name := emptyString
  nextLevel := emptyString
  textureBackground := emptyString
  objects := [
    ⟨0, truncated 256 room256 (text "empty"), emptyString, emptyString⟩,
    ⟨1, truncated 256 room256 (text "player"), emptyString, truncated 256 room256 (text "player")⟩,
    ⟨2, truncated 256 room256 (text "door"), emptyString, truncated 256 room256 (text "door")⟩,
    ⟨3, truncated 256 room256 (text "end"), emptyString, emptyString⟩,
    ⟨4, truncated 256 room256 (text "wall"), emptyString, emptyString⟩]
  layout := ⟨4, [[1, 0, 2, 4]], by decide⟩

theorem walledLevel_palette : EditorPalette walledLevel.objects where
  distinct := by decide
  range := by decide
  empty := by decide
  player := by decide
  levelEnd := by decide

theorem walledLevel_painted (r c : Nat) (id : Int) (found : walledLevel.layout.get? r c = some id) :
    ∃ object ∈ walledLevel.objects, object.id = id := by
  have all : ∀ cell ∈ walledLevel.layout.cells, ∃ object ∈ walledLevel.objects,
      object.id = cell.2.2 := by decide
  exact all (r, c, id) (Grid.mem_cells.mpr found)

theorem walledLevel_roles_iff : SaveKeepsRoles walledLevel ↔ KeepsFixedIds walledLevel :=
  saveKeepsRoles_iff walledLevel walledLevel_palette (by decide) (by decide) walledLevel_painted

/-- The wall is written with id 3, so in the game touching it ends the level. -/
theorem walledLevel_loses_role : EditorPalette walledLevel.objects ∧ ¬ SaveKeepsRoles walledLevel := by
  refine ⟨walledLevel_palette, fun kept => ?_⟩
  have savable : Savable walledLevel.layout := ⟨by decide, by decide, fun r c id found => by
    obtain ⟨object, listed, rfl⟩ := walledLevel_painted r c id found
    exact walledLevel_palette.range object listed⟩
  have ranks := (saveKeepsRoles_iff_ranks savable).mp kept 4 (by decide +kernel)
  exact absurd ranks (by decide +kernel)

end Trigger.Editor
