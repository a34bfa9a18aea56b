import Trigger.Config.Level
import Trigger.Foundation.Keeping

/-! The loader with its allocations, each of which may be refused, and what releases a level.

The blocks of a level are released by `free_level_config`; a request that is refused makes
the loader release what it has and return null, but not always all of it.
-/

set_option autoImplicit false

namespace Trigger.Config
open Foundation

/-- What the loader requests memory for; `json` is the tree that `cJSON_Parse` returns. -/
inductive Piece where
  | fileText
  | json
  | config
  | objects
  | layout
  | data
  | row
  deriving DecidableEq, Repr

/-- A level with the addresses of its blocks. The table is null when the file has none; the
field of the rows is not written when the file has none. -/
structure OwnedConfig where
  config : LoadedConfig
  self : Nat
  objects : Option Nat
  layout : Nat
  data : Option (Nat × List Nat)

/-! ## load_level_config -/

def mallocRows : Nat → Memory Piece → List Nat × Bool × Memory Piece
  | 0, memory => ([], true, memory)
  | count + 1, memory =>
    match memory.malloc .row with
    | (none, memory) => ([], false, memory)
    | (some row, memory) =>
      let (rows, complete, memory) := mallocRows count memory
      (row :: rows, complete, memory)

/-- The cells of the map: `array` are the items of the field "data". -/
def loadCells (memory : Memory Piece) (array : List Json) (size : Option (Int × Int)) (tree : Nat)
    (owned : OwnedConfig) : Except Fault (Option OwnedConfig × Memory Piece) :=
  match size with
  | none => .error .indeterminate
  | some (rows, cols) =>
    match memory.malloc .data with
    | (none, memory) => do
      let memory ← memory.free (some tree)
      -- The pointer to the rows is null here.
      let memory ← memory.free none
      let memory ← memory.free (some owned.layout)
      let memory ← memory.free owned.objects
      let memory ← memory.free (some owned.self)
      return (none, memory)
    | (some data, memory) =>
      match mallocRows rows.toNat memory with
      | (blocks, false, memory) => do
        -- The tree and the array of the rows are forgotten.
        let memory ← memory.freeAll blocks.reverse
        let memory ← memory.free (some owned.layout)
        let memory ← memory.free owned.objects
        let memory ← memory.free (some owned.self)
        return (none, memory)
      | (blocks, true, memory) => do
        let cells ← (List.range rows.toNat).mapM fun i => loadRow cols.toNat array[i]?
        let memory ← memory.free (some tree)
        return (some { owned with
          config := { owned.config with layout := ⟨some rows, some cols, some cells⟩ }
          data := some (data, blocks) }, memory)

def loadLayoutIn (memory : Memory Piece) (json : Json) (tree self : Nat) (objects : Option Nat)
    (config : LoadedConfig) : Except Fault (Option OwnedConfig × Memory Piece) :=
  match memory.malloc .layout with
  | (none, memory) => do
    -- The table is forgotten.
    let memory ← memory.free (some tree)
    let memory ← memory.free (some self)
    return (none, memory)
  | (some layout, memory) =>
    match json.getObjectItem (text "map") with
    | none => do
      let memory ← memory.free (some tree)
      return (some ⟨config, self, objects, layout, none⟩, memory)
    | some mapData => do
      let size ← loadSize (mapData.getObjectItem (text "size"))
      let config := { config with layout := ⟨size.map (·.1), size.map (·.2), none⟩ }
      let owned : OwnedConfig := ⟨config, self, objects, layout, none⟩
      match mapData.getObjectItem (text "data") with
      | some (.array items) => loadCells memory items size tree owned
      | _ =>
        let memory ← memory.free (some tree)
        return (some owned, memory)

/-- The level of a tree, which is deleted. -/
def loadParsed (memory : Memory Piece) (json : Json) (tree : Nat) : Except Fault (Option OwnedConfig × Memory Piece) :=
  match memory.malloc .config with
  | (none, memory) => do
    let memory ← memory.free (some tree)
    return (none, memory)
  | (some self, memory) => do
    let info ← loadInfo (json.getObjectItem (text "level_info"))
    let config : LoadedConfig := ⟨info.name, info.nextLevel, info.textureBackground, [], ⟨none, none, none⟩⟩
    match json.getObjectItem (text "objects") with
    | some (.array items) =>
      match memory.malloc .objects with
      | (none, memory) =>
        let memory ← memory.free (some tree)
        let memory ← memory.free (some self)
        return (none, memory)
      | (some objects, memory) =>
        let loaded ← items.mapM loadObject
        loadLayoutIn memory json tree self (some objects) { config with objects := loaded }
    | _ => loadLayoutIn memory json tree self none config

/-- `load_level_config`: no file, or a file with a tree or with none. -/
def loadLevelConfigIn (memory : Memory Piece) (file : Option (Option Json)) :
    Except Fault (Option OwnedConfig × Memory Piece) :=
  match file with
  | none => .ok (none, memory)
  | some parsed =>
    match memory.malloc .fileText with
    | (none, memory) => .ok (none, memory)
    | (some data, memory) =>
      match parsed with
      | none => do
        let memory ← memory.free (some data)
        return (none, memory)
      | some json => do
        let tree := memory.heap.fresh
        let memory ← { memory with heap := memory.heap.create .json }.free (some data)
        loadParsed memory json tree

/-! ## free_level_config -/

def freeLevelConfig (memory : Memory Piece) (owned : OwnedConfig) : Except Fault (Memory Piece) := do
  let memory ← memory.free owned.objects
  match owned.data with
  -- The pointer to the rows is tested whether or not it was written.
  | none => .error .indeterminate
  | some (data, rows) =>
    let memory ← memory.freeAll rows
    let memory ← memory.free (some data)
    let memory ← memory.free (some owned.layout)
    memory.free (some owned.self)

/-! ## What is requested and what is forgotten -/

def tableRequest (json : Json) : List Piece :=
  match json.getObjectItem (text "objects") with
  | some (.array _) => [.objects]
  | _ => []

def cellRequests (json : Json) : List Piece :=
  match json.getObjectItem (text "map") with
  | none => []
  | some mapData =>
    match mapData.getObjectItem (text "data"), loadSize (mapData.getObjectItem (text "size")) with
    | some (.array _), .ok (some (rows, _)) => .data :: List.replicate rows.toNat .row
    | _, _ => []

/-- The requests for the level of a tree, in their order. -/
def requests (json : Json) : List Piece :=
  .fileText :: .config :: (tableRequest json ++ .layout :: cellRequests json)

/-- What stays allocated when this request is the first to be refused. -/
def forgotten (json : Json) : Piece → List Piece
  | .layout => tableRequest json
  | .row => [.data, .json]
  | _ => []

/-- What the loader forgets of a file when it returns null. -/
def forgottenOf (answers : List Bool) : Option (Option Json) → List Piece
  | some (some json) => (Memory.refused answers (requests json)).elim [] (forgotten json)
  | _ => []

def objectBlocks (objects : Option Nat) : List (Nat × Piece) := objects.toList.map fun address => (address, .objects)

def rowBlocks (rows : List Nat) : List (Nat × Piece) := rows.map fun address => (address, .row)

/-- The blocks a level owns. -/
def OwnedConfig.blocks (owned : OwnedConfig) : List (Nat × Piece) :=
  (match owned.data with
    | some (data, rows) => rowBlocks rows ++ [(data, .data)]
    | none => []) ++ (owned.layout, .layout) :: (objectBlocks owned.objects ++ [(owned.self, .config)])

/-- The outcome of the loader while these requests are still to come: a level that owns
every block that is kept, or null, with what the first request that is refused makes the
loader forget. -/
def Settles (before : Heap Piece) (json : Json) (answers : List Bool) (later : List Piece) :
    Option OwnedConfig × Memory Piece → Prop
  | (some owned, after) => Memory.refused answers later = none ∧ loadLevelConfig json = .ok owned.config ∧
      (owned.data.isSome ↔ owned.config.layout.data.isSome) ∧ Keeps before after.heap owned.blocks
  | (none, after) => ∃ piece kept, Memory.refused answers later = some piece ∧ Keeps before after.heap kept ∧
      kept.map Prod.snd = forgotten json piece

/-- A fault is one that the same file has without refused requests. -/
def Outcome (before : Heap Piece) (json : Json) (answers : List Bool) (later : List Piece) :
    Except Fault (Option OwnedConfig × Memory Piece) → Prop
  | .ok answer => Settles before json answers later answer
  | .error fault => loadLevelConfig json = .error fault

section
variable {before : Heap Piece} {memory : Memory Piece} {json : Json}

theorem Settles.of_granted {answers : List Bool} {piece : Piece} {later : List Piece}
    {answer : Option OwnedConfig × Memory Piece} (granted : answers.headD true = true)
    (settles : Settles before json answers.tail later answer) :
    Settles before json answers (piece :: later) answer := by
  rw [Settles.eq_def, Memory.refused_of_granted granted]
  exact settles

theorem settles_of_refused {answers : List Bool} {piece : Piece} {later : List Piece} {kept : List (Nat × Piece)}
    (refused : ¬ answers.headD true = true) (keeps : Keeps before memory.heap kept)
    (named : kept.map Prod.snd = forgotten json piece) : Settles before json answers (piece :: later) (none, memory) :=
  ⟨piece, kept, Memory.refused_of_refused refused piece later, keeps, named⟩

theorem free_objects {front back : List (Nat × Piece)} {objects : Option Nat}
    (keeps : Keeps before memory.heap (front ++ (objectBlocks objects ++ back))) :
    ∃ next, memory.free objects = .ok next ∧ next.answers = memory.answers ∧
      Keeps before next.heap (front ++ back) := by
  cases objects with
  | none => exact ⟨memory, rfl, rfl, keeps⟩
  | some address => exact keeps.free

section
variable {answers : List Bool} {later : List Piece} {front back : List (Nat × Piece)}
  {rest : Memory Piece → Except Fault (Option OwnedConfig × Memory Piece)}

theorem Outcome.of_granted {piece : Piece} {result : Except Fault (Option OwnedConfig × Memory Piece)}
    (granted : answers.headD true = true) (outcome : Outcome before json answers.tail later result) :
    Outcome before json answers (piece :: later) result := by
  cases result with
  | ok answer => exact Settles.of_granted granted outcome
  | error fault => exact outcome

theorem Outcome.free {address : Nat} {piece : Piece}
    (keeps : Keeps before memory.heap (front ++ (address, piece) :: back))
    (goesOn : ∀ next : Memory Piece, next.answers = memory.answers → Keeps before next.heap (front ++ back) →
      Outcome before json answers later (rest next)) :
    Outcome before json answers later (memory.free (some address) >>= rest) := by
  obtain ⟨next, freed, same, held⟩ := keeps.free
  rw [freed]
  exact goesOn next same held

theorem Outcome.freeObjects {objects : Option Nat}
    (keeps : Keeps before memory.heap (front ++ (objectBlocks objects ++ back)))
    (goesOn : ∀ next : Memory Piece, next.answers = memory.answers → Keeps before next.heap (front ++ back) →
      Outcome before json answers later (rest next)) :
    Outcome before json answers later (memory.free objects >>= rest) := by
  obtain ⟨next, freed, same, held⟩ := free_objects keeps
  rw [freed]
  exact goesOn next same held

theorem Outcome.freeRows {rows : List Nat} (keeps : Keeps before memory.heap (front ++ rowBlocks rows ++ back))
    (goesOn : ∀ next : Memory Piece, next.answers = memory.answers → Keeps before next.heap (front ++ back) →
      Outcome before json answers later (rest next)) :
    Outcome before json answers later (memory.freeAll rows >>= rest) := by
  obtain ⟨next, freed, same, held⟩ := Keeps.freeAll keeps
  rw [freed]
  exact goesOn next same held

theorem Outcome.read {A : Type} {result : Except Fault A}
    {rest : A → Except Fault (Option OwnedConfig × Memory Piece)}
    (faults : ∀ fault, result = .error fault → loadLevelConfig json = .error fault)
    (goesOn : ∀ value, result = .ok value → Outcome before json answers later (rest value)) :
    Outcome before json answers later (result >>= rest) := by
  cases read : result with
  | ok value => exact goesOn value read
  | error fault => exact faults fault read

end

theorem mallocRows_keeps (count : Nat) {kept : List (Nat × Piece)} (keeps : Keeps before memory.heap kept) :
    ∃ rows complete next, mallocRows count memory = (rows, complete, next) ∧
      Keeps before next.heap (rowBlocks rows.reverse ++ kept) ∧
      Memory.refused memory.answers (List.replicate count Piece.row) = if complete then none else some .row := by
  induction count generalizing memory kept with
  | zero => exact ⟨[], true, memory, rfl, keeps, rfl⟩
  | succ count ih =>
    rw [List.replicate_succ]
    by_cases granted : memory.answers.headD true = true
    · let grown : Memory Piece := ⟨memory.heap.create .row, memory.answers.tail⟩
      have more : Keeps before grown.heap ((memory.heap.fresh, .row) :: kept) := keeps.create .row
      obtain ⟨rows, complete, next, taken, held, rest⟩ := ih more
      refine ⟨memory.heap.fresh :: rows, complete, next, ?_, ?_, ?_⟩
      · rw [mallocRows, Memory.malloc_of_granted granted]
        dsimp only
        rw [taken]
      · simpa [rowBlocks] using held
      · rw [Memory.refused_of_granted granted]
        exact rest
    · refine ⟨[], false, ⟨memory.heap, memory.answers.tail⟩, ?_, keeps, Memory.refused_of_refused granted _ _⟩
      rw [mallocRows, Memory.malloc_of_refused granted]

section
variable {owned : OwnedConfig} {mapData : Json} {items : List Json} {rows cols : Int} {tree : Nat}

theorem loadLayout_of_array (found : json.getObjectItem (text "map") = some mapData)
    (array : mapData.getObjectItem (text "data") = some (.array items))
    (sized : loadSize (mapData.getObjectItem (text "size")) = .ok (some (rows, cols))) :
    loadLayout (json.getObjectItem (text "map")) =
      ((List.range rows.toNat).mapM fun i => loadRow cols.toNat items[i]?).map
        fun cells => ⟨some rows, some cols, some cells⟩ := by
  rw [found, loadLayout, sized, array]
  change LoadedLayout.mk (some rows) (some cols) <$> Except.map some
    ((List.range rows.toNat).mapM fun i => loadRow cols.toNat items[i]?) = _
  cases (List.range rows.toNat).mapM fun i => loadRow cols.toNat items[i]? <;> rfl

theorem refusedData_settles {array : List Json} {answers : List Bool} {later : List Piece}
    (refused : ¬ memory.answers.headD true = true) (answered : answers = memory.answers)
    (keeps : Keeps before memory.heap
      ((owned.layout, .layout) :: (objectBlocks owned.objects ++ [(owned.self, .config), (tree, .json)]))) :
    Outcome before json answers (.data :: later) (loadCells memory array (some (rows, cols)) tree owned) := by
  subst answered
  rw [loadCells]
  dsimp only
  rw [Memory.malloc_of_refused refused]
  have held : Keeps before (⟨memory.heap, memory.answers.tail⟩ : Memory Piece).heap
      (((owned.layout, .layout) :: (objectBlocks owned.objects ++ [(owned.self, .config)])) ++ (tree, .json) :: []) := by
    simpa using keeps
  refine Outcome.free held fun first _ held => ?_
  have inOrder : Keeps before first.heap
      ([] ++ (owned.layout, .layout) :: (objectBlocks owned.objects ++ [(owned.self, .config)])) := by simpa using held
  refine Outcome.free inOrder fun second _ held => ?_
  refine Outcome.freeObjects held fun third _ held => ?_
  refine Outcome.free held fun last _ held => ?_
  exact settles_of_refused refused held rfl

theorem refusedRow_settles {blocks : List Nat} {data : Nat} {next : Memory Piece}
    {answers : List Bool} {later : List Piece} (refused : Memory.refused answers later = some .row)
    (keeps : Keeps before next.heap (rowBlocks blocks.reverse ++ (data, .data) :: (owned.layout, .layout) ::
      (objectBlocks owned.objects ++ [(owned.self, .config), (tree, .json)]))) :
    Outcome before json answers later (do
      let memory ← next.freeAll blocks.reverse
      let memory ← memory.free (some owned.layout)
      let memory ← memory.free owned.objects
      let memory ← memory.free (some owned.self)
      return (none, memory)) := by
  refine Outcome.freeRows (show Keeps before next.heap ([] ++ rowBlocks blocks.reverse ++ _) from keeps)
    fun first _ held => ?_
  refine Outcome.free (show Keeps before first.heap ([(data, .data)] ++ (owned.layout, .layout) :: _) from held)
    fun second _ held => ?_
  refine Outcome.freeObjects held fun third _ held => ?_
  refine Outcome.free held fun last _ held => ?_
  exact ⟨.row, _, refused, held, rfl⟩

theorem loadCells_settles {size : Option (Int × Int)} (found : json.getObjectItem (text "map") = some mapData)
    (array : mapData.getObjectItem (text "data") = some (.array items))
    (sized : loadSize (mapData.getObjectItem (text "size")) = .ok size)
    (finish : loadLevelConfig json =
      (loadLayout (json.getObjectItem (text "map"))).map fun layout => { owned.config with layout })
    (keeps : Keeps before memory.heap
      ((owned.layout, .layout) :: (objectBlocks owned.objects ++ [(owned.self, .config), (tree, .json)]))) :
    Outcome before json memory.answers (cellRequests json) (loadCells memory items size tree owned) := by
  cases size with
  | none =>
    have unsized : loadLayout (json.getObjectItem (text "map")) = .error .indeterminate := by
      rw [found, loadLayout, sized, array]
      rfl
    change loadLevelConfig json = .error .indeterminate
    rw [finish, unsized]
    rfl
  | some bounds =>
    obtain ⟨rows, cols⟩ := bounds
    have asks : cellRequests json = .data :: List.replicate rows.toNat .row := by
      rw [cellRequests, found]
      dsimp only
      rw [array, sized]
    rw [asks]
    by_cases granted : memory.answers.headD true = true
    case neg => exact refusedData_settles granted rfl keeps
    rw [loadCells]
    dsimp only
    rw [Memory.malloc_of_granted granted]
    refine Outcome.of_granted granted ?_
    let grown : Memory Piece := ⟨memory.heap.create .data, memory.answers.tail⟩
    have more : Keeps before grown.heap ((memory.heap.fresh, .data) :: _) := keeps.create .data
    -- The rows are asked for one by one; after the first refusal the rows so far go back with the rest.
    obtain ⟨blocks, complete, next, rowsTaken, held, refused⟩ := mallocRows_keeps rows.toNat more
    dsimp only
    rw [rowsTaken]
    cases complete with
    | false => exact refusedRow_settles refused held
    | true =>
      have laid := loadLayout_of_array found array sized
      refine Outcome.read (fun fault failed => ?_) fun cells read => ?_
      · rw [finish, laid, failed]
        rfl
      · have inOrder : Keeps before next.heap
            ((rowBlocks blocks.reverse ++ (memory.heap.fresh, .data) :: (owned.layout, .layout) ::
              (objectBlocks owned.objects ++ [(owned.self, .config)])) ++ (tree, .json) :: []) := by simpa using held
        refine Outcome.free inOrder fun last _ held => ?_
        refine ⟨refused, by rw [finish, laid, read]; rfl, by simp, held.perm ?_⟩
        have rows : (rowBlocks blocks.reverse).Perm (rowBlocks blocks) := (List.reverse_perm blocks).map _
        simpa [OwnedConfig.blocks] using rows.append_right _

end

theorem loadLayout_of_no_array {mapData : Json} {size : Option (Int × Int)}
    (sized : loadSize (mapData.getObjectItem (text "size")) = .ok size)
    (none : ∀ items, mapData.getObjectItem (text "data") ≠ some (.array items)) :
    loadLayout (some mapData) = .ok ⟨size.map (·.1), size.map (·.2), Option.none⟩ := by
  have data : loadData size (mapData.getObjectItem (text "data")) = .ok Option.none := by
    unfold loadData
    split
    · rename_i items found
      exact absurd found (none items)
    · rfl
  rw [loadLayout, sized]
  change LoadedLayout.mk (size.map (·.1)) (size.map (·.2)) <$> loadData size _ = _
  rw [data]
  rfl

theorem cellRequests_of_no_array {mapData : Json} (found : json.getObjectItem (text "map") = some mapData)
    (none : ∀ items, mapData.getObjectItem (text "data") ≠ some (.array items)) : cellRequests json = [] := by
  rw [cellRequests, found]
  dsimp only
  split
  · rename_i items _ _ array _
    exact absurd array (none _)
  · rfl

theorem returned_settles {owned : OwnedConfig} {tree : Nat} (unasked : cellRequests json = [])
    (empty : owned.data = none) (blank : owned.config.layout.data = none)
    (loaded : loadLevelConfig json = .ok owned.config)
    (keeps : Keeps before memory.heap
      ((owned.layout, .layout) :: (objectBlocks owned.objects ++ [(owned.self, .config), (tree, .json)]))) :
    Outcome before json memory.answers (cellRequests json) (do
      let memory ← memory.free (some tree)
      return (some owned, memory)) := by
  have inOrder : Keeps before memory.heap
      (((owned.layout, .layout) :: (objectBlocks owned.objects ++ [(owned.self, .config)])) ++ (tree, .json) :: []) := by
    simpa using keeps
  refine Outcome.free inOrder fun next _ held => ⟨by rw [unasked]; rfl, loaded, by simp [empty, blank], ?_⟩
  simpa [OwnedConfig.blocks, empty] using held

theorem loadLayoutIn_settles {tree self : Nat} {objects : Option Nat} {config : LoadedConfig}
    (table : (objectBlocks objects).map Prod.snd = tableRequest json) (blank : config.layout = ⟨none, none, none⟩)
    (finish : loadLevelConfig json =
      (loadLayout (json.getObjectItem (text "map"))).map fun layout => { config with layout })
    (keeps : Keeps before memory.heap (objectBlocks objects ++ [(self, .config), (tree, .json)])) :
    Outcome before json memory.answers (.layout :: cellRequests json)
      (loadLayoutIn memory json tree self objects config) := by
  rw [loadLayoutIn]
  by_cases granted : memory.answers.headD true = true
  · rw [Memory.malloc_of_granted granted]
    refine Outcome.of_granted granted ?_
    let grown : Memory Piece := ⟨memory.heap.create .layout, memory.answers.tail⟩
    have more : Keeps before grown.heap ((memory.heap.fresh, .layout) ::
        (objectBlocks objects ++ [(self, .config), (tree, .json)])) := keeps.create .layout
    dsimp only
    cases found : json.getObjectItem (text "map") with
    | none =>
      have none : cellRequests json = [] := by rw [cellRequests, found]
      refine @returned_settles before grown json ⟨config, self, objects, memory.heap.fresh, Option.none⟩ tree none rfl
        (by rw [blank]) ?_ more
      rw [finish, found]
      change Except.ok { config with layout := ⟨Option.none, Option.none, Option.none⟩ } = Except.ok config
      rw [← blank]
    | some mapData =>
      refine Outcome.read (fun fault failed => ?_) fun size sized => ?_
      · rw [finish, found, loadLayout, failed]
        rfl
      · split
        · rename_i items array
          exact @loadCells_settles before grown json ⟨{ config with layout := _ }, self, objects, memory.heap.fresh, none⟩
            mapData items tree size found array sized finish more
        · rename_i other
          refine @returned_settles before grown json ⟨{ config with layout := _ }, self, objects, memory.heap.fresh, none⟩
            tree (cellRequests_of_no_array found other) rfl rfl ?_ more
          rw [finish, found, loadLayout_of_no_array sized other]
          rfl
  · rw [Memory.malloc_of_refused granted]
    have inOrder : Keeps before (⟨memory.heap, memory.answers.tail⟩ : Memory Piece).heap
        ((objectBlocks objects ++ [(self, .config)]) ++ (tree, .json) :: []) := by simpa using keeps
    refine Outcome.free inOrder fun first _ held => ?_
    refine Outcome.free (show Keeps before first.heap (objectBlocks objects ++ (self, .config) :: []) by simpa using held)
      fun second _ held => ?_
    exact settles_of_refused granted held (by simpa [forgotten] using table)

theorem loadParsed_settles {tree : Nat} (keeps : Keeps before memory.heap [(tree, .json)]) :
    Outcome before json memory.answers (.config :: (tableRequest json ++ .layout :: cellRequests json))
      (loadParsed memory json tree) := by
  rw [loadParsed]
  by_cases granted : memory.answers.headD true = true
  · rw [Memory.malloc_of_granted granted]
    refine Outcome.of_granted granted ?_
    let grown : Memory Piece := ⟨memory.heap.create .config, memory.answers.tail⟩
    have more : Keeps before grown.heap [(memory.heap.fresh, .config), (tree, .json)] := keeps.create .config
    refine Outcome.read (fun fault failed => by rw [loadLevelConfig, failed]; rfl) fun info read => ?_
    dsimp only
    split
    · rename_i items found
      have asks : tableRequest json = [.objects] := by rw [tableRequest, found]
      have listed : loadObjects (json.getObjectItem (text "objects")) = items.mapM loadObject := by rw [found, loadObjects]
      rw [show (⟨memory.heap.create .config, memory.answers.tail⟩ : Memory Piece) = grown from rfl, asks]
      by_cases again : grown.answers.headD true = true
      · rw [Memory.malloc_of_granted again]
        refine Outcome.of_granted again ?_
        refine Outcome.read (fun fault failed => by rw [loadLevelConfig, read, listed, failed]; rfl) fun objects loaded => ?_
        have held : Keeps before (grown.heap.create .objects)
            (objectBlocks (some grown.heap.fresh) ++ [(memory.heap.fresh, .config), (tree, .json)]) :=
          more.create .objects
        refine @loadLayoutIn_settles before ⟨grown.heap.create .objects, grown.answers.tail⟩ json tree memory.heap.fresh
          (some grown.heap.fresh) _ (by rw [asks]; rfl) rfl ?_ held
        rw [loadLevelConfig, read, listed, loaded]
        rfl
      · rw [Memory.malloc_of_refused again]
        refine Outcome.free (show Keeps before (⟨grown.heap, grown.answers.tail⟩ : Memory Piece).heap
          ([(memory.heap.fresh, .config)] ++ (tree, .json) :: []) from more) fun first _ held => ?_
        refine Outcome.free (show Keeps before first.heap ([] ++ (memory.heap.fresh, .config) :: []) from held)
          fun second _ held => ?_
        exact settles_of_refused again held rfl
    · -- A table that is no array asks for nothing, and the layout comes next.
      rename_i other
      have asks : tableRequest json = [] := by
        unfold tableRequest
        split
        · rename_i items found
          exact absurd found (other items)
        · rfl
      have nothing : loadObjects (json.getObjectItem (text "objects")) = .ok [] := by
        unfold loadObjects
        split
        · rename_i items found
          exact absurd found (other items)
        · rfl
      rw [asks]
      refine @loadLayoutIn_settles before grown json tree memory.heap.fresh none _ (by rw [asks]; rfl) rfl ?_ more
      rw [loadLevelConfig, read, nothing]
      rfl
  · rw [Memory.malloc_of_refused granted]
    refine Outcome.free (show Keeps before (⟨memory.heap, memory.answers.tail⟩ : Memory Piece).heap
      ([] ++ (tree, .json) :: []) from keeps) fun first _ held => ?_
    exact settles_of_refused granted held rfl

theorem loadLevelConfigIn_settles (memory : Memory Piece) (json : Json) :
    Outcome memory.heap json memory.answers (requests json) (loadLevelConfigIn memory (some (some json))) := by
  rw [loadLevelConfigIn]
  dsimp only
  by_cases granted : memory.answers.headD true = true
  · rw [Memory.malloc_of_granted granted]
    refine Outcome.of_granted granted ?_
    let parsed : Memory Piece := ⟨(memory.heap.create .fileText).create .json, memory.answers.tail⟩
    have keeps : Keeps memory.heap parsed.heap ([((memory.heap.create .fileText).fresh, .json)] ++
        (memory.heap.fresh, .fileText) :: []) := ((Keeps.refl memory.heap).create .fileText).create .json
    refine Outcome.free keeps fun next answers held => ?_
    have settles : Outcome memory.heap json next.answers _ _ := loadParsed_settles held
    rwa [answers] at settles
  · rw [Memory.malloc_of_refused granted]
    exact @settles_of_refused memory.heap ⟨memory.heap, memory.answers.tail⟩ json _ _ _ [] granted (Keeps.refl _) rfl

/-- A level with cells is released whole; of one without them the pointer to the rows is read,
which was not written. -/
theorem freeLevelConfig_of_keeps {owned : OwnedConfig} (keeps : Keeps before memory.heap owned.blocks) :
    (owned.data = none → freeLevelConfig memory owned = .error .indeterminate) ∧
      (owned.data ≠ none → ∃ last, freeLevelConfig memory owned = .ok last ∧ Keeps before last.heap []) := by
  obtain ⟨config, self, objects, layout, data⟩ := owned
  cases data with
  | none =>
    refine ⟨fun _ => ?_, fun written => absurd rfl written⟩
    obtain ⟨next, freed, -, -⟩ := free_objects (show Keeps before memory.heap
      ([(layout, .layout)] ++ (objectBlocks objects ++ [(self, .config)])) from keeps)
    rw [freeLevelConfig, freed]
    rfl
  | some written =>
    obtain ⟨data, rows⟩ := written
    refine ⟨fun missing => (Option.some_ne_none _ missing).elim, fun _ => ?_⟩
    obtain ⟨first, freedObjects, -, held⟩ := free_objects (show Keeps before memory.heap
      ((rowBlocks rows ++ [(data, .data), (layout, .layout)]) ++ (objectBlocks objects ++ [(self, .config)]))
      by simpa [OwnedConfig.blocks] using keeps)
    obtain ⟨second, freedRows, -, held⟩ := Keeps.freeAll (show Keeps before first.heap
      ([] ++ rowBlocks rows ++ [(data, .data), (layout, .layout), (self, .config)]) by simpa using held)
    obtain ⟨third, freedData, -, held⟩ := Keeps.free (show Keeps before second.heap
      ([] ++ (data, .data) :: [(layout, .layout), (self, .config)]) from held)
    obtain ⟨fourth, freedLayout, -, held⟩ := held.free
    obtain ⟨last, freedSelf, -, held⟩ := held.free
    refine ⟨last, ?_, held⟩
    rw [freeLevelConfig, freedObjects]
    change (first.freeAll rows >>= fun memory => memory.free (some data) >>= fun memory =>
      memory.free (some layout) >>= fun memory => memory.free (some self)) = _
    rw [freedRows]
    change (second.free (some data) >>= fun memory => memory.free (some layout) >>= fun memory =>
      memory.free (some self)) = _
    rw [freedData]
    change (third.free (some layout) >>= fun memory => memory.free (some self)) = _
    rw [freedLayout]
    exact freedSelf

end

theorem loadLevelConfigIn_unparsed (memory : Memory Piece) :
    ∃ after, loadLevelConfigIn memory (some none) = .ok (none, after) ∧ Keeps memory.heap after.heap [] := by
  rw [loadLevelConfigIn]
  dsimp only
  by_cases granted : memory.answers.headD true = true
  · rw [Memory.malloc_of_granted granted]
    let grown : Memory Piece := ⟨memory.heap.create .fileText, memory.answers.tail⟩
    have keeps : Keeps memory.heap grown.heap ([] ++ (memory.heap.fresh, .fileText) :: []) :=
      (Keeps.refl memory.heap).create .fileText
    obtain ⟨next, freed, -, held⟩ := keeps.free
    exact ⟨next, bind_ok_iff.mpr ⟨next, freed, rfl⟩, held⟩
  · rw [Memory.malloc_of_refused granted]
    exact ⟨_, rfl, Keeps.refl _⟩

/-- The loader, whichever of its requests are refused. It has no fault that the same file does not
have without refusals, so no block is released twice. A level it returns is the one the
file describes, and keeps exactly its own blocks; `free_level_config` releases them all,
unless the map has no array of rows: then it reads a pointer that was never written. Where
the loader returns null, what stays allocated is what the first refused request makes it
forget: the table of the objects, or the tree and the array of the rows. -/
theorem loadLevelConfigIn_accounted (memory : Memory Piece) (file : Option (Option Json)) :
    match loadLevelConfigIn memory file with
    | .error fault => ∃ json, file = some (some json) ∧ loadLevelConfig json = .error fault
    | .ok (some owned, after) =>
        ∃ json, file = some (some json) ∧ Memory.refused memory.answers (requests json) = none ∧
          loadLevelConfig json = .ok owned.config ∧ Keeps memory.heap after.heap owned.blocks ∧
          (owned.config.layout.data = none → freeLevelConfig after owned = .error .indeterminate) ∧
          (owned.config.layout.data ≠ none →
            ∃ last, freeLevelConfig after owned = .ok last ∧ Keeps memory.heap last.heap [])
    | .ok (none, after) =>
        ∃ kept, Keeps memory.heap after.heap kept ∧ kept.map Prod.snd = forgottenOf memory.answers file ∧
          ∀ json, file = some (some json) → Memory.refused memory.answers (requests json) ≠ none := by
  cases file with
  | none => exact ⟨[], Keeps.refl _, rfl, fun json same => by cases same⟩
  | some parsed =>
    cases parsed with
    | none =>
      obtain ⟨after, taken, keeps⟩ := loadLevelConfigIn_unparsed memory
      rw [taken]
      exact ⟨[], keeps, rfl, fun json same => by cases same⟩
    | some json =>
      have outcome := loadLevelConfigIn_settles memory json
      cases taken : loadLevelConfigIn memory (some (some json)) with
      | error fault =>
        rw [taken] at outcome
        exact ⟨json, rfl, outcome⟩
      | ok answered =>
        rw [taken] at outcome
        obtain ⟨answer, after⟩ := answered
        cases answer with
        | none =>
          obtain ⟨piece, kept, denied, keeps, named⟩ := outcome
          refine ⟨kept, keeps, by rw [forgottenOf, denied]; exact named, fun other same => ?_⟩
          cases same
          rw [denied]
          exact Option.some_ne_none piece
        | some owned =>
          obtain ⟨granted, loaded, cells, keeps⟩ := outcome
          obtain ⟨unwritten, written⟩ := freeLevelConfig_of_keeps keeps
          refine ⟨json, rfl, granted, loaded, keeps, fun none => unwritten ?_, fun some => written ?_⟩
          · rw [← Option.not_isSome_iff_eq_none, cells, none]
            simp
          · rw [← Option.isSome_iff_ne_none, cells]
            exact Option.isSome_iff_ne_none.mpr some

def cellLevel : Json :=
  .object [(text "objects", .array []), (text "map", .object [
    (text "size", .object [(text "rows", .number 1), (text "cols", .number 1)]),
    (text "data", .array [.array [.number 0]])])]

/-- The row is the sixth request; the tree and the array of the rows stay allocated. -/
example : forgottenOf [true, true, true, true, true, false] (some (some cellLevel)) = [.data, .json] := by
  decide +kernel

end Trigger.Config
