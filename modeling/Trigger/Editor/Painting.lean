import Trigger.Editor.Frames

/-! What can be drawn with the editor: every map of its size over the palette, and no other.

Every object has a page and a row in the palette, so every tile can be picked; cell by cell
any map is painted.
-/

set_option autoImplicit false

namespace Trigger.Editor
open Foundation Config Engine

/-- An action of the user leads from one session to the other. -/
def Acts (session next : EditorSession) : Prop := ∃ action, editorStep session action = .ok next

theorem acts_iff_run {session last : EditorSession} :
    Relation.ReflTransGen Acts session last ↔ ∃ actions, run editorStep session actions = .ok last :=
  reflTransGen_iff_run

theorem paintCell_objects (session : EditorSession) (row col : Int) :
    (paintCell session row col).config.objects = session.config.objects := by
  unfold paintCell
  dsimp only
  split <;> rfl

theorem editorStep_objects {session next : EditorSession} {action : EditorAction}
    (taken : editorStep session action = .ok next) : next.config.objects = session.config.objects := by
  cases action with
  | clickPalette rowInPalette =>
    rw [editorStep] at taken
    split at taken <;> cases taken <;> rfl
  | clickMap row col =>
    cases taken
    exact paintCell_objects session row col
  | previousPage =>
    cases taken
    rfl
  | nextPage =>
    cases taken
    rfl
  | save =>
    obtain ⟨file, -, rfl⟩ := map_ok_iff.mp taken
    rfl

theorem acts_keep {session last : EditorSession} (workable : Workable session)
    (acts : Relation.ReflTransGen Acts session last) :
    Workable last ∧ last.config.objects = session.config.objects := by
  induction acts with
  | refl => exact ⟨workable, rfl⟩
  | tail _ act ih =>
    obtain ⟨action, taken⟩ := act
    obtain ⟨next, again, kept⟩ := editorStep_workable ih.1 action
    cases taken.symm.trans again
    exact ⟨kept, (editorStep_objects taken).trans ih.2⟩

theorem turns_forward {session : EditorSession} (workable : Workable session) (count : Nat) :
    Relation.ReflTransGen Acts session
      { session with palettePage := (session.palettePage + count) % totalPages session.config } := by
  induction count with
  | zero =>
    have here : (session.palettePage + (0 : Nat)) % totalPages session.config = session.palettePage := by
      rw [Int.natCast_zero, Int.add_zero]
      exact Int.emod_eq_of_lt workable.onPage.low workable.onPage.high
    rw [here]
  | succ count ih =>
    refine ih.tail ⟨.nextPage, ?_⟩
    have shown : 0 ≤ (session.palettePage + count) % totalPages session.config + 1 := by
      have := Int.emod_nonneg (session.palettePage + count) workable.pages.ne'
      omega
    rw [editorStep]
    dsimp only
    rw [Int.tmod_eq_emod_of_nonneg shown, Int.emod_add_emod, Int.natCast_succ, Int.add_assoc]

theorem turns_to {session : EditorSession} (workable : Workable session) {page : Int} (low : 0 ≤ page)
    (high : page < totalPages session.config) :
    Relation.ReflTransGen Acts session { session with palettePage := page } := by
  have before := workable.onPage.high
  -- Once around, and from there to the page.
  have around : session.palettePage + ((page + totalPages session.config - session.palettePage).toNat : Int) =
      page + totalPages session.config := by omega
  have turned := turns_forward workable (page + totalPages session.config - session.palettePage).toNat
  rwa [around, Int.add_emod_right, Int.emod_eq_of_lt low high] at turned

theorem picks_tile {session : EditorSession} (workable : Workable session) {id : Int}
    (known : PaletteId session.config.objects id) :
    ∃ page, Relation.ReflTransGen Acts session { session with palettePage := page, currentTile := id } := by
  obtain ⟨object, member, rfl⟩ := known
  obtain ⟨k, found⟩ := List.mem_iff_getElem?.mp member
  have inside : k < session.config.objects.length := (List.getElem?_eq_some_iff.mp found).1
  have low : 0 ≤ ((k / itemsPerPage : Nat) : Int) := Int.natCast_nonneg _
  have high : ((k / itemsPerPage : Nat) : Int) < totalPages session.config := by
    rw [totalPages, LevelConfig.countObjects]
    simp only [itemsPerPage]
    omega
  refine ⟨(k / itemsPerPage : Nat), (turns_to workable low high).tail ⟨.clickPalette (k % itemsPerPage : Nat), ?_⟩⟩
  have onPage : OnPage { session with palettePage := ((k / itemsPerPage : Nat) : Int) } := ⟨low, high⟩
  have picked : paletteObject { session with palettePage := ((k / itemsPerPage : Nat) : Int) }
      (k % itemsPerPage : Nat) = some object := by
    refine (paletteObject_eq_some_iff onPage).mpr ⟨k % itemsPerPage, rfl, Nat.mod_lt _ (by decide), ?_⟩
    dsimp only
    rw [Int.toNat_natCast, Nat.mul_comm, Nat.div_add_mod]
    exact found
  rw [editorStep, picked]

theorem paints_cell {session : EditorSession} (workable : Workable session) {r c : Nat} {id : Int}
    (row : r < editorMaxSize) (col : c < editorMaxSize) (known : PaletteId session.config.objects id) :
    ∃ last, Relation.ReflTransGen Acts session last ∧ ∀ i j, last.config.layout.get? i j =
      if i = r ∧ j = c then some id else session.config.layout.get? i j := by
  obtain ⟨page, acts⟩ := picks_tile workable known
  obtain ⟨-, cells⟩ := @paintCell_layout { session with palettePage := page, currentTile := id } r c
    (workable.rows ▸ row) (workable.cols ▸ col)
  exact ⟨_, acts.tail ⟨.clickMap r c, rfl⟩, cells⟩

theorem paints_cells (tile : Nat → Nat → Int) (cells : List (Nat × Nat)) {session : EditorSession}
    (workable : Workable session)
    (each : ∀ cell ∈ cells, cell.1 < editorMaxSize ∧ cell.2 < editorMaxSize ∧
      PaletteId session.config.objects (tile cell.1 cell.2)) :
    ∃ last, Relation.ReflTransGen Acts session last ∧ ∀ i j, last.config.layout.get? i j =
      if (i, j) ∈ cells then some (tile i j) else session.config.layout.get? i j := by
  induction cells with
  | nil => exact ⟨session, .refl, fun i j => by simp⟩
  | cons cell rest ih =>
    rw [List.forall_mem_cons] at each
    obtain ⟨⟨row, col, known⟩, others⟩ := each
    obtain ⟨middle, before, painted⟩ := ih others
    obtain ⟨kept, palette⟩ := acts_keep workable before
    obtain ⟨last, after, here⟩ := paints_cell kept row col (palette ▸ known)
    refine ⟨last, before.trans after, fun i j => ?_⟩
    rw [here, painted]
    obtain ⟨r, c⟩ := cell
    by_cases same : i = r ∧ j = c
    · obtain ⟨rfl, rfl⟩ := same
      simp
    · rw [if_neg same]
      have apart : (i, j) ≠ (r, c) := fun pairs => same (Prod.mk.inj pairs)
      simp [apart]

theorem paints_map {session : EditorSession} (workable : Workable session) {target : MapLayout}
    (rows : target.rows = editorMaxSize) (cols : target.cols = editorMaxSize)
    (known : ∀ r c id, target.get? r c = some id → PaletteId session.config.objects id) :
    ∃ last, Relation.ReflTransGen Acts session last ∧ last.config.layout = target := by
  have found {r c : Nat} (row : r < editorMaxSize) (col : c < editorMaxSize) :
      target.get? r c = some ((target.get? r c).getD 0) := by
    obtain ⟨id, cell⟩ := (target.exists_get?_iff r c).mpr ⟨rows ▸ row, cols ▸ col⟩
    rw [cell]
    rfl
  have inside {r c : Nat} : (r, c) ∈ List.range editorMaxSize ×ˢ List.range editorMaxSize ↔
      r < editorMaxSize ∧ c < editorMaxSize :=
    List.mem_product.trans (and_congr List.mem_range List.mem_range)
  have each (cell : Nat × Nat) (member : cell ∈ List.range editorMaxSize ×ˢ List.range editorMaxSize) :
      cell.1 < editorMaxSize ∧ cell.2 < editorMaxSize ∧
        PaletteId session.config.objects ((target.get? cell.1 cell.2).getD 0) := by
    obtain ⟨row, col⟩ := inside.mp member
    exact ⟨row, col, known _ _ _ (found row col)⟩
  obtain ⟨last, acts, painted⟩ := paints_cells (fun r c => (target.get? r c).getD 0) _ workable each
  obtain ⟨kept, -⟩ := acts_keep workable acts
  refine ⟨last, acts, Grid.ext_get? (kept.rows.trans rows.symm) (kept.cols.trans cols.symm) fun r c row col => ?_⟩
  rw [kept.rows] at row
  rw [kept.cols] at col
  rw [painted, if_pos (inside.mpr ⟨row, col⟩)]
  exact (found row col).symm

/-- The maps that some actions lead to are those of the editor's size over the palette. -/
theorem editor_paints_iff {loads : Bytes → Bool} {listing : Option (List Bytes)} {file : MapFile}
    (safe : SafeFile listing file) {session : EditorSession}
    (opened : openEditor loads listing file = .ok (some session)) (target : MapLayout) :
    (∃ actions last, run editorStep session actions = .ok last ∧ last.config.layout = target) ↔
      target.rows = editorMaxSize ∧ target.cols = editorMaxSize ∧
        ∀ r c id, target.get? r c = some id → PaletteId session.config.objects id := by
  obtain ⟨workable, -⟩ := opened_workable (editorSafe_of_safeFile loads safe) opened
  constructor
  · rintro ⟨actions, last, reached, rfl⟩
    obtain ⟨kept, palette⟩ := acts_keep workable (acts_iff_run.mpr ⟨actions, reached⟩)
    exact ⟨kept.rows, kept.cols, palette ▸ kept.sound.cells⟩
  · rintro ⟨rows, cols, known⟩
    obtain ⟨last, acts, painted⟩ := paints_map workable rows cols known
    obtain ⟨actions, reached⟩ := acts_iff_run.mp acts
    exact ⟨actions, last, reached, painted⟩

def chequered : MapLayout := Grid.ofFn editorMaxSize editorMaxSize fun r c => if (r + c) % 2 = 0 then 1 else 0

theorem chequered_painted : ∃ session, openEditor (fun _ => true) none .absent = .ok (some session) ∧
    ∃ actions last, run editorStep session actions = .ok last ∧ last.config.layout = chequered := by
  obtain ⟨session, opened, same, -⟩ := newMap_opens
  refine ⟨session, opened, (editor_paints_iff newMap_safe opened chequered).mpr
    ⟨Grid.rows_ofFn _ _ _, rfl, fun r c id found => ?_⟩⟩
  rw [same]
  rw [chequered, Grid.get?_ofFn] at found
  split_ifs at found with inside even
  · cases found
    exact ⟨playerObject, List.mem_of_getElem? (builtPalette none).player, rfl⟩
  · cases found
    exact ⟨emptyObject, List.mem_of_getElem? (builtPalette none).empty, rfl⟩

end Trigger.Editor
